import Tabular.Proofs.YamlSteps

/-!
# Records as YAML texts

The text of records is split into the tokens of their values, their lists and their members (`tokens?_write`),
whatever printable texts stand in it and however deep the lists in it are nested.
-/

namespace Tabular.Yaml

open Lexer

/-- A value that is written in block style without escapes: flags, printable texts, records whose fields have plain
names, and lists of records. -/
inductive Tidy : Json → Prop
  | bool (b : Bool) : Tidy (.bool b)
  | text {s : String} (printable : Printable s) : Tidy (Json.text s)
  | array {items : List Json} (records : ∀ j ∈ items, ∃ member members, j = .object (member :: members))
      (each : ∀ j ∈ items, Tidy j) : Tidy (.array items)
  | object {member : Option String × Json} {members : List (Option String × Json)}
      (keys : ∀ m ∈ member :: members, ∃ name, m.1 = some name ∧ IsFieldName name)
      (each : ∀ m ∈ member :: members, Tidy m.2) : Tidy (.object (member :: members))

/-- The members of a record are reached from their values, and lists from the members of their records. -/
theorem Tidy.induct {P : Json → Prop} {Q : List (Option String × Json) → Prop} (bool : ∀ b, P (.bool b))
    (text : ∀ s, Printable s → P (Json.text s))
    (array : ∀ items, (∀ j ∈ items, ∃ member members, j = .object (member :: members) ∧ Q (member :: members)) →
      P (.array items))
    (record : ∀ member members, (∀ m ∈ member :: members, ∃ name, m.1 = some name ∧ IsFieldName name) →
      (∀ m ∈ member :: members, Tidy m.2 ∧ P m.2) → Q (member :: members))
    (object : ∀ member members, Q (member :: members) → P (.object (member :: members))) {v : Json} (tidy : Tidy v) :
    P v ∧ ∀ members, v = .object members → Q members := by
  induction tidy with
  | bool b => exact ⟨bool b, fun _ same => by cases same⟩
  | @text s printable => exact ⟨text s printable, fun _ same => by cases same⟩
  | @array items records each ih =>
    refine ⟨array items fun j member => ?_, fun _ same => by cases same⟩
    obtain ⟨first, others, same⟩ := records j member
    exact ⟨first, others, same, (ih j member).2 _ same⟩
  | @object member members keys each ih =>
    have reached := record member members keys fun m listed => ⟨each m listed, (ih m listed).1⟩
    refine ⟨object member members reached, fun _ same => ?_⟩
    rwa [← Json.object.inj same]

section Tokens

variable {label : Type}

mutual

/-- The tokens of a value. A list stands in the column of its name, so that no token starts or ends it. -/
def valueTokens : Json → List (Token label)
  | .bool b => [.scalar .plain (if b then "true" else "false")]
  | .string s => [.scalar (styleOf (s.getD "")) (s.getD "")]
  | .array [] => [.flowSequenceStart, .flowSequenceEnd]
  | .array (item :: rest) => itemTokens (item :: rest)
  | .object members => .mappingStart :: memberTokens members ++ [.blockEnd]
  | .null => []
  | .number _ => []

/-- The tokens of the items of a list. -/
def itemTokens : List Json → List (Token label)
  | [] => []
  | item :: rest => .entry :: valueTokens item ++ itemTokens rest

/-- The tokens of the members of a record. -/
def memberTokens : List (Option String × Json) → List (Token label)
  | [] => []
  | (key, value) :: rest => .key :: .scalar .plain (key.getD "") :: .value :: valueTokens value ++ memberTokens rest

end

end Tokens

theorem writeText_fieldName {name : String} (field : IsFieldName name) (n : Nat) : writeText n name = name.toList := by
  obtain ⟨named, unambiguous, _⟩ := field
  have printable : Printable name := fun c member =>
    isPrintable_of_isNameRest (isNameRest_of_isIdentifier named c member)
  have style : styleOf name = .plain := by
    rw [styleOf_of_printable printable, unambiguous, fitsPlain_of_isIdentifier named]
    rfl
  rw [writeText, style]

theorem printable_singleBody {cs : List Char} (printable : ∀ c ∈ cs, isPrintable c = true) (n : Nat) :
    ∀ c ∈ singleBody n false cs, isPrintable c = true := by
  induction cs with
  | nil => simp [singleBody]
  | cons c rest ih =>
    have shown := printable c List.mem_cons_self
    rw [singleBody_cons (isBreak_of_printable shown)]
    intro d member
    rcases List.mem_append.mp member with here | later
    · split at here
      · have quote : d = '\'' := by simpa using here
        rw [quote]
        decide
      · rwa [List.mem_singleton.mp here]
    · exact ih (fun e member => printable e (List.mem_cons_of_mem c member)) d later

/-- A printable text is written as it is, or between apostrophes. -/
theorem writeText_eq {s : String} (printable : Printable s) (n : Nat) :
    (styleOf s = .plain ∧ fitsPlain s.toList = true ∧ s.toList ≠ [] ∧ writeText n s = s.toList) ∨
      (styleOf s = .singleQuoted ∧ writeText n s = '\'' :: singleBody n false s.toList ++ ['\'']) := by
  have style := styleOf_of_printable printable
  by_cases plain : (!isAmbiguous s && fitsPlain s.toList) = true
  · rw [if_pos plain] at style
    rw [Bool.and_eq_true, Bool.not_eq_true'] at plain
    refine .inl ⟨style, plain.2, ?_, by rw [writeText, style]⟩
    intro empty
    rw [String.toList_eq_nil_iff.mp empty] at plain
    cases plain.1
  · rw [if_neg plain] at style
    exact .inr ⟨style, by rw [writeText, style]⟩

theorem printable_writeText {s : String} (printable : Printable s) (n : Nat) :
    ∀ c ∈ writeText n s, isPrintable c = true := by
  rcases writeText_eq printable n with ⟨_, _, _, text⟩ | ⟨_, text⟩
  · rw [text]
    exact printable
  · rw [text]
    intro c member
    simp only [List.cons_append, List.mem_cons, List.mem_append, List.not_mem_nil, or_false] at member
    rcases member with rfl | inside | rfl
    · decide
    · exact printable_singleBody printable n c inside
    · decide

/-- A printable text takes one line. -/
theorem endLine_writeText {s : String} (printable : Printable s) (n : Nat) :
    endLine (writeText n s) = writeText n s ++ ['\n'] := by
  have last : (writeText n s).getLast?.any isBreak = false := by
    cases ended : (writeText n s).getLast? with
    | none => rfl
    | some c => exact isBreak_of_printable (printable_writeText printable n c (List.mem_of_getLast? ended))
  rw [endLine, last]
  rfl

/-- What stands after the name of a member and what follows the members. -/
theorem writeMembers_append {name : String} (field : IsFieldName name) (n : Nat) (value : Json)
    (rest : List (Option String × Json)) (s : List Char) :
    writeMembers n ((some name, value) :: rest) ++ s = name.toList ++ ':' :: (writeValue n value ++
      if rest = [] then s else blanks n ++ (writeMembers n rest ++ s)) := by
  cases rest <;> simp [writeMembers, writeText_fieldName field]

theorem writeItems_append (n : Nat) (member : Option String × Json) (members : List (Option String × Json))
    (rest : List Json) (s : List Char) :
    writeItems n (.object (member :: members) :: rest) ++ s =
      blanks n ++ ('-' :: ' ' :: (writeMembers (n + 2) (member :: members) ++ (writeItems n rest ++ s))) := by
  simp [writeItems]

/-- The text of a member goes on behind its colon with a blank or on another line. -/
theorem writeValue_head (n : Nat) (v : Json) (s : List Char) :
    (writeValue n v ++ s).head?.all (fun c => isGap c || isBreak c) = true := by
  cases v with
  | null => rfl
  | bool b => rfl
  | number literal => rfl
  | string s => rfl
  | array items =>
    cases items with
    | nil => rfl
    | cons item rest => rfl
  | object members =>
    cases members with
    | nil => rfl
    | cons member rest => rfl

theorem length_writeMembers {name : String} (field : IsFieldName name) (n : Nat) (value : Json)
    (rest : List (Option String × Json)) : name.toList.length + 1 + (writeValue n value).length +
      (writeMembers n rest).length ≤ (writeMembers n ((some name, value) :: rest)).length := by
  have text := congrArg List.length (writeMembers_append field n value rest [])
  simp only [List.append_nil] at text
  rw [text]
  split
  · next none =>
    subst none
    simp [writeMembers]
    omega
  · simp
    omega

namespace Lexer

/-- Behind a colon, in a block at the column `b`, the tokens of the value are read. -/
def ReadsValue (v : Json) : Prop :=
  ∀ (b i ln j k : Nat) (w : List Char) (done : List (Token String)) (outer : List Nat), b ≤ j → k ≤ b → Visible w →
    Arrives (writeValue b v).length (inLine (spotsFrom i ln j (writeValue b v ++ (blanks k ++ w))) done (b :: outer))
      ((valueTokens v).reverse ++ done) (b :: outer) k w

/-- The tokens of the members are read at the column `b`, where a mapping begins or goes on, up to its end. -/
structure ReadsMembers (members : List (Option String × Json)) : Prop where
  visible : ∀ b more, Visible (writeMembers b members ++ more)
  read : ∀ (b i ln k : Nat) (w : List Char) (l : Lexer) (done start : List (Token String)) (indents outer : List Nat),
    Ready l done indents (spotsFrom i ln b (writeMembers b members ++ (blanks k ++ w))) →
    Enters b done indents start (b :: outer) → k ≤ b → (w ≠ [] → k < b) → Visible w →
    Arrives (writeMembers b members).length l (.blockEnd :: ((memberTokens members).reverse ++ start)) outer k w

/-- The tokens of the items are read in a block at the column `b`, where `x` begins with the first dash. -/
def ReadsItems (items : List Json) : Prop :=
  ∀ (b i ln k : Nat) (w x : List Char) (l : Lexer) (done : List (Token String)) (outer : List Nat),
    blanks b ++ x = writeItems b items ++ (blanks k ++ w) → Ready l done (b :: outer) (spotsFrom i ln b x) → k ≤ b →
    Visible w → Arrives (writeItems b items).length l ((itemTokens items).reverse ++ done) (b :: outer) k w

theorem readsValue_bool (v : Bool) : ReadsValue (.bool v) := by
  intro b i ln j k w done outer deep shallow visible
  cases v with
  | true =>
    refine (reaches_plain "true" (by decide) (by decide) (by decide) deep shallow visible).mono ?_
    simp [writeValue]
  | false =>
    refine (reaches_plain "false" (by decide) (by decide) (by decide) deep shallow visible).mono ?_
    simp [writeValue]

theorem readsValue_text {s : String} (printable : Printable s) : ReadsValue (Json.text s) := by
  intro b i ln j k w done outer deep shallow visible
  have value : writeValue b (Json.text s) = ' ' :: (writeText (b + 2) s ++ ['\n']) := by
    rw [← endLine_writeText printable]
    rfl
  refine Arrives.mono ?_ (show 1 ≤ (writeValue b (Json.text s)).length by simp [value])
  show Arrives 1 _ (.scalar (styleOf s) s :: done) (b :: outer) k w
  rcases writeText_eq printable (b + 2) with ⟨style, fits, given, text⟩ | ⟨style, text⟩
  · rw [value, text, style, List.cons_append, List.append_assoc]
    exact reaches_plain s printable fits given deep shallow visible
  · have spelled : writeValue b (Json.text s) ++ (blanks k ++ w) =
        ' ' :: '\'' :: (singleBody (b + 2) false s.toList ++ '\'' :: '\n' :: (blanks k ++ w)) := by
      simp [value, text]
    rw [spelled, style]
    exact reaches_quoted s printable deep visible

theorem readsValue_object {member : Option String × Json} {members : List (Option String × Json)}
    (reads : ReadsMembers (member :: members)) : ReadsValue (.object (member :: members)) := by
  intro b i ln j k w done outer deep shallow visible
  let text := writeMembers (b + 2) (member :: members)
  have value : writeValue b (.object (member :: members)) = '\n' :: (blanks (b + 2) ++ text) := rfl
  have ready : Ready (inLine (spotsFrom i ln j ('\n' :: (blanks (b + 2) ++ (text ++ (blanks k ++ w))))) done (b :: outer))
      done (b :: outer) (spotsFrom (i + 1 + (b + 2)) (ln + 1) (b + 2) (text ++ (blanks k ++ w))) :=
    ready_of_line (reads.visible (b + 2) (blanks k ++ w))
  have inner : ∀ d ∈ (b :: outer).head?, d < b + 2 := by simp
  have read := reads.read (b + 2) _ _ k w _ done _ _ (b :: outer) ready (.starts inner) (by omega) (by omega) visible
  have tokens : (valueTokens (.object (member :: members))).reverse ++ done =
      .blockEnd :: ((memberTokens (member :: members)).reverse ++ .mappingStart :: done) := by
    simp [valueTokens]
  rw [tokens, value, List.cons_append, List.append_assoc]
  exact read.mono (by simp [text]; omega)

theorem readsMembers {members : List (Option String × Json)} (given : members ≠ [])
    (keys : ∀ m ∈ members, ∃ name, m.1 = some name ∧ IsFieldName name) (each : ∀ m ∈ members, ReadsValue m.2) :
    ReadsMembers members := by
  induction members with
  | nil => exact absurd rfl given
  | cons member rest ih =>
    obtain ⟨key, value⟩ := member
    obtain ⟨name, rfl, field⟩ := keys (key, value) List.mem_cons_self
    have reads : ReadsValue value := each _ List.mem_cons_self
    refine ⟨fun b more => ?_, ?_⟩
    · rw [writeMembers_append field]
      exact visible_of_isIdentifier field.1 _
    intro b i ln k w l done start indents outer ready enters shallow last visible
    rw [writeMembers_append field] at ready
    have named := ready.reaches_key field enters (writeValue_head b value _)
    have deep : b ≤ b + name.toList.length + 1 := by omega
    have long := length_writeMembers field b value rest
    have short : 1 ≤ name.toList.length := by
      obtain ⟨c, more, text⟩ := exists_cons_of_isIdentifier field.1
      simp [text]
    have tokens : (memberTokens ((some name, value) :: rest)).reverse ++ start = (memberTokens rest).reverse ++
        ((valueTokens value).reverse ++ .value :: .scalar .plain name :: .key :: start) := by
      simp [memberTokens]
    rw [tokens]
    by_cases none : rest = []
    · rw [if_pos none] at named
      have read := named.arrives (reads b _ _ _ k w _ outer deep shallow visible)
      rw [none]
      rw [none] at long
      exact (read.close last).mono (by omega)
    · rw [if_neg none] at named
      have others := ih none (fun m member => keys m (List.mem_cons_of_mem _ member)) fun m member =>
        each m (List.mem_cons_of_mem _ member)
      have read := named.arrives (reads b _ _ _ b _ _ outer deep (Nat.le_refl b) (others.visible b (blanks k ++ w)))
      have later := read.trans fun m i ln next =>
        others.read b i ln k w m _ _ _ outer next .goesOn shallow last visible
      exact later.mono (by omega)

theorem readsItems {items : List Json} (given : items ≠ [])
    (each : ∀ j ∈ items, ∃ member members, j = .object (member :: members) ∧ ReadsMembers (member :: members)) :
    ReadsItems items := by
  induction items with
  | nil => exact absurd rfl given
  | cons item rest ih =>
    obtain ⟨member, members, rfl, reads⟩ := each item List.mem_cons_self
    intro b i ln k w x l done outer text ready shallow visible
    rw [writeItems_append] at text
    obtain rfl := List.append_cancel_left text
    obtain ⟨m, first, inner⟩ := ready.reaches_dash (reads.visible _ _)
    have long : (writeItems b (.object (member :: members) :: rest)).length =
        b + (2 + (writeMembers (b + 2) (member :: members)).length + (writeItems b rest).length) := by
      have same := congrArg List.length (writeItems_append b member members rest [])
      simp only [List.append_nil] at same
      rw [same]
      simp [blanks]
      omega
    have tokens : (itemTokens (.object (member :: members) :: rest)).reverse ++ done = (itemTokens rest).reverse ++
        .blockEnd :: ((memberTokens (member :: members)).reverse ++ .mappingStart :: .entry :: done) := by
      simp [itemTokens, valueTokens]
    have within : ∀ d ∈ (b :: outer).head?, d < b + 2 := by simp
    rw [tokens]
    cases rest with
    | nil =>
      have read := reads.read (b + 2) _ _ k w m _ _ _ (b :: outer) inner (.starts within) (by omega) (by omega) visible
      exact (first.arrives read).mono (by omega)
    | cons next more =>
      obtain ⟨head, others, rfl, _⟩ := each next (List.mem_cons_of_mem _ List.mem_cons_self)
      rw [writeItems_append] at inner
      have read := reads.read (b + 2) _ _ b _ m _ _ _ (b :: outer) inner (.starts within) (by omega) (by omega)
        (visible_cons.mpr (by decide))
      have later := (first.arrives read).trans fun m i ln next =>
        ih (List.cons_ne_nil _ _) (fun j member => each j (List.mem_cons_of_mem _ member)) b i ln k w _ m _ outer
          (writeItems_append b head others more _).symm next shallow visible
      exact later.mono (by omega)

theorem readsValue_array {items : List Json}
    (each : ∀ j ∈ items, ∃ member members, j = .object (member :: members) ∧ ReadsMembers (member :: members)) :
    ReadsValue (.array items) := by
  intro b i ln j k w done outer deep shallow visible
  cases items with
  | nil => exact (reaches_empty deep visible).mono (by simp [writeValue])
  | cons item rest =>
    have reads := readsItems (List.cons_ne_nil item rest) each
    obtain ⟨member, members, rfl, _⟩ := each item List.mem_cons_self
    let text := writeItems b (.object (member :: members) :: rest) ++ (blanks k ++ w)
    let dashed := '-' :: ' ' :: (writeMembers (b + 2) (member :: members) ++ (writeItems b rest ++ (blanks k ++ w)))
    have same : text = blanks b ++ dashed := writeItems_append b member members rest (blanks k ++ w)
    have ready : Ready (inLine (spotsFrom i ln j ('\n' :: text)) done (b :: outer)) done (b :: outer)
        (spotsFrom (i + 1 + b) (ln + 1) b dashed) := by
      rw [same]
      exact ready_of_line (visible_cons.mpr (by decide))
    have read := reads b _ _ k w dashed _ done outer same.symm ready shallow visible
    exact read.mono (Nat.le_succ _)

end Lexer

/-- The tokens of what is written are those that are read. -/
theorem Tidy.reads {v : Json} (tidy : Tidy v) :
    ReadsValue v ∧ ∀ members, v = .object members → ReadsMembers members :=
  tidy.induct readsValue_bool (fun _ => readsValue_text) (fun _ => readsValue_array)
    (fun _ _ keys each => readsMembers (List.cons_ne_nil _ _) keys fun m member => (each m member).2)
    fun _ _ => readsValue_object

/-! ## Whole texts -/

/-- Texts of printable characters and ends of lines, which are read as they are. -/
def Kept (cs : List Char) : Prop :=
  ∀ c ∈ cs, isPrintable c = true ∨ c = '\n'

instance (cs : List Char) : Decidable (Kept cs) :=
  List.decidableBAll (fun c => isPrintable c = true ∨ c = '\n') cs

@[simp]
theorem kept_nil : Kept [] := by simp [Kept]

@[simp]
theorem kept_cons (c : Char) (cs : List Char) : Kept (c :: cs) ↔ (isPrintable c = true ∨ c = '\n') ∧ Kept cs :=
  List.forall_mem_cons

@[simp]
theorem kept_append (cs ds : List Char) : Kept (cs ++ ds) ↔ Kept cs ∧ Kept ds :=
  List.forall_mem_append

@[simp]
theorem kept_blanks (n : Nat) : Kept (blanks n) := by
  intro c member
  rw [List.eq_of_mem_replicate member]
  decide

theorem kept_of_printable {cs : List Char} (printable : ∀ c ∈ cs, isPrintable c = true) : Kept cs :=
  fun c member => .inl (printable c member)

theorem kept_writeMembers {members : List (Option String × Json)}
    (keys : ∀ m ∈ members, ∃ name, m.1 = some name ∧ IsFieldName name)
    (each : ∀ m ∈ members, ∀ n, Kept (writeValue n m.2)) (n : Nat) : Kept (writeMembers n members) := by
  induction members with
  | nil => simp [writeMembers]
  | cons member rest ih =>
    obtain ⟨key, value⟩ := member
    obtain ⟨name, rfl, field⟩ := keys (key, value) List.mem_cons_self
    have later := ih (fun m member => keys m (List.mem_cons_of_mem _ member)) fun m member =>
      each m (List.mem_cons_of_mem _ member)
    have named : Kept name.toList :=
      kept_of_printable fun c member => isPrintable_of_isNameRest (isNameRest_of_isIdentifier field.1 c member)
    have text := writeMembers_append field n value rest []
    rw [List.append_nil] at text
    rw [text]
    split
    · simp [named, each _ List.mem_cons_self n, isPrintable]
    · simp [named, each _ List.mem_cons_self n, later, isPrintable]

theorem kept_writeItems {items : List Json} (records : ∀ j ∈ items, ∃ member members, j = .object (member :: members) ∧
    ∀ n, Kept (writeMembers n (member :: members))) (n : Nat) : Kept (writeItems n items) := by
  induction items with
  | nil => simp [writeItems]
  | cons item rest ih =>
    obtain ⟨member, members, rfl, kept⟩ := records item List.mem_cons_self
    have later := ih fun j member => records j (List.mem_cons_of_mem _ member)
    have text := writeItems_append n member members rest []
    rw [List.append_nil, List.append_nil] at text
    rw [text]
    simp [kept, later, isPrintable]

/-- The text of a value holds nothing but printable characters and ends of lines. -/
theorem Tidy.kept {v : Json} (tidy : Tidy v) :
    (∀ n, Kept (writeValue n v)) ∧ ∀ members, v = .object members → ∀ n, Kept (writeMembers n members) := by
  refine tidy.induct (P := fun v => ∀ n, Kept (writeValue n v)) (Q := fun members => ∀ n, Kept (writeMembers n members))
    (fun b n => ?_) (fun s printable n => ?_) (fun items records n => ?_)
    (fun member members keys each => kept_writeMembers keys fun m listed => (each m listed).2)
    (fun member members kept n => ?_)
  · cases b with
    | true => exact (by decide : Kept [' ', 't', 'r', 'u', 'e', '\n'])
    | false => exact (by decide : Kept [' ', 'f', 'a', 'l', 's', 'e', '\n'])
  · show Kept (' ' :: endLine (writeText (n + 2) s))
    rw [endLine_writeText printable]
    simp [kept_of_printable (printable_writeText printable (n + 2)), isPrintable]
  · have kept := kept_writeItems records n
    cases items with
    | nil => exact (by decide : Kept [' ', '[', ']', '\n'])
    | cons item rest => exact (kept_cons _ _).mpr ⟨.inr rfl, kept⟩
  · show Kept ('\n' :: (blanks (n + 2) ++ writeMembers (n + 2) (member :: members)))
    simp [kept]

theorem unifyBreaks_of_kept {cs : List Char} (kept : Kept cs) : unifyBreaks cs = cs := by
  induction cs with
  | nil => rfl
  | cons c rest ih =>
    obtain ⟨shown, later⟩ := (kept_cons c rest).mp kept
    have other : ∀ d, isPrintable d = false → d ≠ '\n' → c ≠ d := by
      rintro d hidden line rfl
      rcases shown with shown | rfl
      · rw [hidden] at shown
        cases shown
      · exact line rfl
    have back := other '\r' (by decide) (by decide)
    have next := other '\u0085' (by decide) (by decide)
    rw [unifyBreaks, ih later, if_neg (by simp [back, next])]
    intro _ same
    exact absurd same back

theorem isAllowed_of_kept {cs : List Char} (kept : Kept cs) : cs.all isAllowed = true := by
  rw [List.all_eq_true]
  intro c member
  rcases kept c member with shown | rfl
  · obtain ⟨low, high⟩ := isPrintable_iff.mp shown
    simp [isAllowed, low, high]
  · decide

theorem spots?_of_kept {s : String} (kept : Kept s.toList) : spots? s = some (spotsFrom 0 0 0 s.toList) := by
  rw [spots?, if_pos (isAllowed_of_kept kept), unifyBreaks_of_kept kept]

theorem length_spotsFrom (i ln j : Nat) (cs : List Char) : (spotsFrom i ln j cs).length = cs.length := by
  have same := congrArg List.length (spotsFrom_map_char cs i ln j)
  rwa [List.length_map] at same

/-- The text of a record is split into the tokens of the record. -/
theorem tokens?_write {members : List (Option String × Json)} (tidy : Tidy (.object members)) :
    tokens? (write (.object members)) = some (valueTokens (.object members)) := by
  let text := writeMembers 0 members
  let l : Lexer := { rest := spotsFrom 0 0 0 text }
  have reads := tidy.reads.2 members rfl
  have seen := reads.visible 0 []
  have ready : Ready l [] [] (spotsFrom 0 0 0 (text ++ (blanks 0 ++ []))) := by
    show Ready l [] [] (spotsFrom 0 0 0 (text ++ []))
    rw [List.append_nil] at seen ⊢
    exact ⟨rfl, rfl, skipToToken_visible seen, [], rfl, rfl, by simp⟩
  obtain ⟨m, i, ln, ⟨used, few, same⟩, last⟩ :=
    reads.read 0 0 0 0 [] l [] [.mappingStart] [] [] ready (.starts (by simp)) (Nat.le_refl 0) (by simp)
      (by simp [Visible])
  have spots : spots? (String.ofList text) = some l.rest := by
    rw [spots?_of_kept (by rw [String.toList_ofList]; exact tidy.kept.2 members rfl 0), String.toList_ofList]
  have enough : text.length + 1 = text.length - used + 1 + used := by
    have few : used ≤ text.length := few
    omega
  have run : l.run (l.rest.length + 1) = some (valueTokens (.object members)) := by
    rw [length_spotsFrom, enough, same, last.finish]
    simp [valueTokens]
  have written : write (.object members) = String.ofList text := rfl
  rw [tokens?, written, spots]
  exact run

end Tabular.Yaml
