import Tabular.Proofs.YamlTexts
import Tabular.Yaml.Document

/-!
# Records as YAML documents

The document in the text of a record is the record again, node by node (`parse_write`).
-/

namespace Tabular.Yaml

mutual

/-- The node that a value is read as. -/
def node : Json → Node
  | .bool b => .scalar none ⟨none, .plain, if b then "true" else "false"⟩
  | .string s => .scalar none ⟨none, styleOf (s.getD ""), s.getD ""⟩
  | .array items => .sequence none (itemNodes items)
  | .object members => .mapping none (memberNodes members)
  | .null => empty
  | .number _ => empty

def itemNodes : List Json → List Node
  | [] => []
  | item :: rest => node item :: itemNodes rest

def memberNodes : List (Option String × Json) → List (Node × Node)
  | [] => []
  | (key, value) :: rest => (.scalar none ⟨none, .plain, key.getD ""⟩, node value) :: memberNodes rest

end

theorem itemNodes_eq (items : List Json) : itemNodes items = items.map node := by
  induction items with
  | nil => rfl
  | cons item rest ih => rw [itemNodes, ih, List.map_cons]

mutual

/-- There are no anchors to number. -/
theorem number_value (labels : Labels) : ∀ (v : Json) (rest : List (Token String)),
    number labels (valueTokens v ++ rest) = (number labels rest).map (valueTokens v ++ ·)
  | .null, rest => by simp [valueTokens]
  | .number _, rest => by simp [valueTokens]
  | .bool b, rest => by simp [valueTokens, number]
  | .string s, rest => by simp [valueTokens, number]
  | .array [], rest => by simp [valueTokens, number, Function.comp_def]
  | .array (item :: items), rest => by simp [valueTokens, number_items labels (item :: items) rest]
  | .object members, rest => by
    simp [valueTokens, number, number_members labels members, Function.comp_def]

theorem number_items (labels : Labels) : ∀ (items : List Json) (rest : List (Token String)),
    number labels (itemTokens items ++ rest) = (number labels rest).map (itemTokens items ++ ·)
  | [], rest => by simp [itemTokens]
  | item :: items, rest => by
    simp [itemTokens, number, number_value labels item, number_items labels items rest, Function.comp_def]

theorem number_members (labels : Labels) : ∀ (members : List (Option String × Json)) (rest : List (Token String)),
    number labels (memberTokens members ++ rest) = (number labels rest).map (memberTokens members ++ ·)
  | [], rest => by simp [memberTokens]
  | (key, value) :: members, rest => by
    simp [memberTokens, number, number_value labels value, number_members labels members rest, Function.comp_def]

end

/-- The tokens of a value begin with one before which no node is left out, and which is no alias. -/
theorem valueTokens_cons {v : Json} (tidy : Tidy v) : ∃ t more, (valueTokens v : List (Token Nat)) = t :: more ∧
    t ∉ [.key, .value, .blockEnd] := by
  cases tidy with
  | bool b => exact ⟨_, _, rfl, by simp⟩
  | text printable => exact ⟨_, _, rfl, by simp⟩
  | @array items _ _ =>
    cases items with
    | nil => exact ⟨_, _, rfl, by simp⟩
    | cons item rest => exact ⟨_, _, rfl, by simp⟩
  | object _ _ => exact ⟨_, _, rfl, by simp⟩

/-- As the value of a member, the value is read from its tokens, which no further entry may follow. -/
def ReadsNode (v : Json) : Prop :=
  ∀ (fuel : Nat) (rest : List (Token Nat)), 3 * (valueTokens v : List (Token Nat)).length + 2 ≤ fuel →
    rest.head? ≠ some .entry → readNode [] fuel .member (valueTokens v ++ rest) = some (node v, rest)

def ReadsMemberNodes (members : List (Option String × Json)) : Prop :=
  ∀ (fuel : Nat) (rest : List (Token Nat)), 3 * (memberTokens members : List (Token Nat)).length + 1 ≤ fuel →
    readMembers [] fuel (memberTokens members ++ .blockEnd :: rest) = some (memberNodes members, rest)

def ReadsItemNodes (items : List Json) : Prop :=
  ∀ (fuel : Nat) (rest : List (Token Nat)), 3 * (itemTokens items : List (Token Nat)).length + 1 ≤ fuel →
    rest.head? ≠ some .entry → readEntries [] fuel true (itemTokens items ++ rest) = some (itemNodes items, rest)

theorem readNode_scalar (style : Style) (text : String) (fuel : Nat) (rest : List (Token Nat)) :
    readNode [] (fuel + 1) .member (.scalar style text :: rest) = some (.scalar none ⟨none, style, text⟩, rest) := by
  rw [readNode]
  · simp [readProperties]
  · simp

/-- Entries in the column of their name are a sequence. -/
theorem readNode_entries {fuel : Nat} {s rest : List (Token Nat)} {items : List Node}
    (read : readEntries [] fuel true (.entry :: s) = some (items, rest)) :
    readNode [] (fuel + 1) .member (.entry :: s) = some (.sequence none items, rest) := by
  rw [readNode]
  · simp [readProperties, read]
  · simp

/-- A record is read wherever blocks may stand. -/
theorem readNode_record {members : List (Option String × Json)} (reads : ReadsMemberNodes members) {setting : Setting}
    (block : setting ≠ .flow) {fuel : Nat} (rest : List (Token Nat))
    (enough : 3 * (valueTokens (.object members) : List (Token Nat)).length + 2 ≤ fuel) :
    readNode [] fuel setting (valueTokens (.object members) ++ rest) = some (node (.object members), rest) := by
  cases fuel with
  | zero => omega
  | succ n =>
    have inner : readMembers [] n (memberTokens members ++ .blockEnd :: rest) = some (memberNodes members, rest) := by
      refine reads n rest ?_
      simp [valueTokens] at enough
      omega
    have spelled : valueTokens (.object members) ++ rest =
        .mappingStart :: (memberTokens members ++ .blockEnd :: rest) := by
      simp [valueTokens]
    rw [spelled, readNode]
    · simp [readProperties, block, inner, node]
    · simp

theorem readsNode_array {items : List Json} (reads : ReadsItemNodes items) : ReadsNode (.array items) := by
  intro fuel rest enough last
  cases fuel with
  | zero => omega
  | succ n =>
    cases items with
    | nil =>
      cases n with
      | zero => simp [valueTokens] at enough
      | succ n =>
        show readNode [] (n + 1 + 1) .member (.flowSequenceStart :: .flowSequenceEnd :: rest) = _
        rw [readNode]
        · simp [readProperties, readFlowItems, node, itemNodes]
        · simp
    | cons item more =>
      refine readNode_entries (reads n rest ?_ last)
      simp [valueTokens] at enough
      omega

theorem readMemberNode_of_head {fuel : Nat} {t : Token Nat} {s : List (Token Nat)}
    (given : t ∉ [.key, .value, .blockEnd]) :
    readMemberNode [] (fuel + 1) (t :: s) = readNode [] fuel .member (t :: s) := by
  have present : isVoidBefore [.key, .value, .blockEnd] (t :: s) = false := by
    simp only [isVoidBefore, List.head?_cons, Option.any_some]
    rw [List.contains_eq_mem, decide_eq_false_iff_not]
    exact given
  rw [readMemberNode, present]
  rfl

theorem readMembers_key {fuel : Nat} {name : String} {value : Json} {s t rest : List (Token Nat)}
    {members : List (Node × Node)} (tidy : Tidy value)
    (read : readNode [] (fuel + 1) .member (valueTokens value ++ s) = some (node value, t))
    (others : readMembers [] (fuel + 3) t = some (members, rest)) :
    readMembers [] (fuel + 4) (.key :: .scalar .plain name :: .value :: (valueTokens value ++ s)) =
      some ((.scalar none ⟨none, .plain, name⟩, node value) :: members, rest) := by
  obtain ⟨first, more, same, given⟩ := valueTokens_cons tidy
  have key : readMemberNode [] (fuel + 3) (.scalar .plain name :: .value :: (valueTokens value ++ s)) =
      some (.scalar none ⟨none, .plain, name⟩, .value :: (valueTokens value ++ s)) := by
    rw [readMemberNode_of_head (by simp), readNode_scalar]
  have follows : readMemberValue [] (fuel + 3) (.value :: (valueTokens value ++ s)) = some (node value, t) := by
    rw [same, List.cons_append] at read ⊢
    rw [readMemberValue, readMemberNode_of_head given, read]
  rw [readMembers]
  simp [key, follows, others]

theorem readsMemberNodes {members : List (Option String × Json)} (each : ∀ m ∈ members, Tidy m.2 ∧ ReadsNode m.2) :
    ReadsMemberNodes members := by
  induction members with
  | nil =>
    intro fuel rest enough
    cases fuel with
    | zero => omega
    | succ n => rfl
  | cons member more ih =>
    obtain ⟨key, value⟩ := member
    obtain ⟨tidy, reads⟩ : Tidy value ∧ ReadsNode value := each (key, value) List.mem_cons_self
    have others := ih fun m member => each m (List.mem_cons_of_mem _ member)
    intro fuel rest enough
    simp [memberTokens] at enough
    obtain ⟨n, rfl⟩ : ∃ n, fuel = n + 4 := ⟨fuel - 4, by omega⟩
    have last : (memberTokens more ++ .blockEnd :: rest : List (Token Nat)).head? ≠ some .entry := by
      cases more with
      | nil => simp [memberTokens]
      | cons next more => simp [memberTokens]
    have spelled : memberTokens ((key, value) :: more) ++ .blockEnd :: rest =
        .key :: .scalar .plain (key.getD "") :: .value ::
          (valueTokens value ++ (memberTokens more ++ .blockEnd :: rest)) := by
      simp [memberTokens]
    rw [spelled]
    exact readMembers_key tidy (reads _ _ (by omega) last) (others _ _ (by omega))

/-- A record is read as an entry, and then the other entries. -/
theorem readsItemNodes {items : List Json}
    (records : ∀ j ∈ items, ∃ members, j = .object members ∧ ReadsMemberNodes members) : ReadsItemNodes items := by
  induction items with
  | nil =>
    intro fuel rest enough last
    cases fuel with
    | zero => omega
    | succ n =>
      show readEntries [] (n + 1) true rest = some ([], rest)
      rw [readEntries]
      rintro tokens rfl
      exact last rfl
  | cons item more ih =>
    obtain ⟨members, rfl, reads⟩ := records item List.mem_cons_self
    have others := ih fun j member => records j (List.mem_cons_of_mem _ member)
    intro fuel rest enough last
    simp [itemTokens] at enough
    obtain ⟨n, rfl⟩ : ∃ n, fuel = n + 1 := ⟨fuel - 1, by omega⟩
    have spelled : itemTokens (.object members :: more) ++ rest =
        .entry :: (valueTokens (.object members) ++ (itemTokens more ++ rest)) := by
      simp [itemTokens]
    have first : readNode [] n .block (valueTokens (.object members) ++ (itemTokens more ++ rest)) =
        some (node (.object members), itemTokens more ++ rest) := readNode_record reads (by decide) _ (by omega)
    have present : isVoidBefore [.entry, .key, .value, .blockEnd]
        (valueTokens (.object members) ++ (itemTokens more ++ rest) : List (Token Nat)) = false := rfl
    rw [spelled, readEntries]
    simp [present, first, others n rest (by omega) last, itemNodes]

/-- The node of a value is read from its tokens. -/
theorem Tidy.readsNode {v : Json} (tidy : Tidy v) :
    ReadsNode v ∧ ∀ members, v = .object members → ReadsMemberNodes members := by
  refine tidy.induct (fun b fuel rest enough _ => ?_) (fun s printable fuel rest enough _ => ?_)
    (fun items records => ?_) (fun member members keys each => readsMemberNodes each)
    (fun member members reads fuel rest enough _ => readNode_record reads (by decide) rest enough)
  · obtain ⟨n, rfl⟩ := Nat.exists_eq_add_of_le' (Nat.le_trans (Nat.le_add_left 1 _) enough)
    exact readNode_scalar _ _ n rest
  · obtain ⟨n, rfl⟩ := Nat.exists_eq_add_of_le' (Nat.le_trans (Nat.le_add_left 1 _) enough)
    exact readNode_scalar _ _ n rest
  · refine readsNode_array (readsItemNodes fun j member => ?_)
    obtain ⟨first, others, same, reads⟩ := records j member
    exact ⟨_, same, reads⟩

/-! ## Documents -/

/-- The document in the text of a record is the record. -/
theorem parse_write {members : List (Option String × Json)} (tidy : Tidy (.object members)) :
    parse (write (.object members)) = some (node (.object members)) := by
  have numbered : number [] (valueTokens (.object members)) = some (valueTokens (.object members)) := by
    have same := number_value [] (.object members) []
    rwa [List.append_nil, number, Option.map_some, List.append_nil] at same
  have read : readRoot [] (valueTokens (.object members)) = some (node (.object members), []) := by
    have block : Setting.block ≠ .flow := by decide
    have record := readNode_record (tidy.readsNode.2 members rfl) block [] (Nat.le_succ _)
    rwa [List.append_nil] at record
  have document : readDocument (valueTokens (.object members)) = readRoot [] (valueTokens (.object members)) := rfl
  rw [parse, tokens?_write tidy]
  show (number [] _ >>= _) = _
  rw [numbered]
  show (readDocument _ >>= _) = _
  rw [document, read]
  rfl

end Tabular.Yaml
