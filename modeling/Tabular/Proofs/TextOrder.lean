import Tabular.Proofs.CatalogTexts
import Mathlib.Data.String.Basic

/-!
# The order of texts

Texts are ordered character by character, which is the order of their bytes in UTF-8 (`toList_toUTF8_lt_iff`). A
character with a larger number begins with the same byte or a larger one, and so on, and its bytes end with none of
another character.
-/

namespace String

/-- The bytes of a text are those of its characters. -/
theorem toList_toUTF8 (s : String) : s.toUTF8.toList = s.toList.flatMap utf8EncodeChar := by
  rw [ByteArray.toList_eq, toUTF8_eq_toByteArray, ← utf8Encode_toList, List.utf8Encode, List.toList_data_toByteArray]

/-- The bytes of a character hold the digits of its number to the base 64, the first of them with a mark that tells
how many there are. -/
theorem utf8EncodeChar_digits (c : Char) : ∃ p q r s : Nat,
    c.val.toNat = 262144 * p + 4096 * q + 64 * r + s ∧ p < 5 ∧ q < 64 ∧ r < 64 ∧ s < 64 ∧
    (c.val.toNat ≤ 127 ∧ utf8EncodeChar c = [UInt8.ofNat (64 * r + s)] ∨
      (127 < c.val.toNat ∧ c.val.toNat ≤ 2047) ∧ utf8EncodeChar c = [UInt8.ofNat (r + 192), UInt8.ofNat (s + 128)] ∨
      (2047 < c.val.toNat ∧ c.val.toNat ≤ 65535) ∧
        utf8EncodeChar c = [UInt8.ofNat (q + 224), UInt8.ofNat (r + 128), UInt8.ofNat (s + 128)] ∨
      65535 < c.val.toNat ∧ utf8EncodeChar c =
        [UInt8.ofNat (p + 240), UInt8.ofNat (q + 128), UInt8.ofNat (r + 128), UInt8.ofNat (s + 128)]) := by
  have limit : c.val.toNat < 1114112 := by
    rcases c.valid with low | ⟨_, high⟩
    · exact Nat.lt_trans low (by decide)
    · exact high
  refine ⟨c.val.toNat / 262144, c.val.toNat / 4096 % 64, c.val.toNat / 64 % 64, c.val.toNat % 64, by omega, by omega,
    by omega, by omega, by omega, ?_⟩
  simp only [utf8EncodeChar]
  generalize c.val.toNat = n at limit ⊢
  by_cases one : n ≤ 127
  · have digits : 64 * (n / 64 % 64) + n % 64 = n := by omega
    exact .inl ⟨one, by rw [if_pos one, digits]⟩
  by_cases two : n ≤ 2047
  · have first : n / 64 % 32 = n / 64 % 64 := by omega
    exact .inr (.inl ⟨⟨by omega, two⟩, by rw [if_neg one, if_pos two, first]⟩)
  by_cases three : n ≤ 65535
  · have first : n / 4096 % 16 = n / 4096 % 64 := by omega
    exact .inr (.inr (.inl ⟨⟨by omega, three⟩, by rw [if_neg one, if_neg two, if_pos three, first]⟩))
  · have first : n / 262144 % 8 = n / 262144 := by omega
    exact .inr (.inr (.inr ⟨by omega, by rw [if_neg one, if_neg two, if_neg three, first]⟩))

private theorem ofNat_cons_lt_iff {m n : Nat} (left : m < 256) (right : n < 256) {as bs : List UInt8} :
    UInt8.ofNat m :: as < UInt8.ofNat n :: bs ↔ m < n ∨ m = n ∧ as < bs := by
  rw [List.cons_lt_cons_iff, UInt8.lt_iff_toNat_lt, ← UInt8.toNat_inj, UInt8.toNat_ofNat', UInt8.toNat_ofNat',
    Nat.mod_eq_of_lt left, Nat.mod_eq_of_lt right]

/-- The bytes of a smaller character come first, whatever follows them. -/
theorem utf8EncodeChar_append_lt {c d : Char} (less : c < d) (as bs : List UInt8) :
    utf8EncodeChar c ++ as < utf8EncodeChar d ++ bs := by
  have number : c.val.toNat < d.val.toNat := UInt32.lt_iff_toNat_lt.mp (Char.lt_def.mp less)
  obtain ⟨p, q, r, s, digits, _, _, _, _, bytes⟩ := utf8EncodeChar_digits c
  obtain ⟨p', q', r', s', digits', _, _, _, _, bytes'⟩ := utf8EncodeChar_digits d
  rcases bytes with ⟨_, bytes⟩ | ⟨_, bytes⟩ | ⟨_, bytes⟩ | ⟨_, bytes⟩ <;>
    rcases bytes' with ⟨_, bytes'⟩ | ⟨_, bytes'⟩ | ⟨_, bytes'⟩ | ⟨_, bytes'⟩ <;>
    rw [bytes, bytes'] <;>
    simp (disch := omega) only [List.cons_append, List.nil_append, ofNat_cons_lt_iff] <;>
    clear bytes bytes' <;>
    first
    -- The first bytes differ where the numbers of bytes do.
    | exact .inl (by omega)
    -- Otherwise the first digit that differs is the smaller one, so that `as` and `bs` are not looked at.
    | by_cases rest : as < bs <;> simp only [rest, and_true, and_false, or_false] <;> omega

theorem flatMap_utf8EncodeChar_lt {cs ds : List Char} (less : cs < ds) :
    cs.flatMap utf8EncodeChar < ds.flatMap utf8EncodeChar := by
  have lex : List.Lex (· < ·) cs ds := less
  induction lex with
  | @nil d ds =>
    obtain ⟨b, bs, bytes⟩ := List.exists_cons_of_ne_nil (utf8EncodeChar_ne_nil (c := d))
    rw [List.flatMap_nil, List.flatMap_cons, bytes]
    exact List.nil_lt_cons b _
  | @cons c cs ds rest ih =>
    rw [List.flatMap_cons, List.flatMap_cons]
    exact List.append_left_lt (ih rest)
  | @rel c cs d ds first =>
    rw [List.flatMap_cons, List.flatMap_cons]
    exact utf8EncodeChar_append_lt first _ _

/-- The order of texts is the order of their bytes. -/
theorem toList_toUTF8_lt_iff {s t : String} : s.toUTF8.toList < t.toUTF8.toList ↔ s < t := by
  rw [toList_toUTF8, toList_toUTF8]
  constructor
  · intro less
    rcases lt_trichotomy s t with before | rfl | after
    · exact before
    · exact absurd less (List.lt_irrefl _)
    · exact absurd less (List.lt_asymm (flatMap_utf8EncodeChar_lt (lt_iff_toList_lt.mp after)))
  · intro less
    exact flatMap_utf8EncodeChar_lt (lt_iff_toList_lt.mp less)

end String
