import Tabular.Proofs.StatementTokens
import Tabular.Sql.Reading

/-!
# Reading statements back

Nothing of a statement is lost in its text and its parameters: reading them gives the statement again
(`read_prepare`), because every part of a statement is read from the front of its tokens whatever comes
after it, and the parameters that its placeholders point to are the values it was written with. Two
queries, or two updates, that are answered with the same text and parameters are therefore the same
(`prepare_injective`).
-/

namespace Tabular.Sql
open Token

namespace Reading

private theorem expect_self (t : Token) (rest : List Token) : expect t (t :: rest) = some ((), rest) := by
  simp [expect]

private theorem items_none {α : Type} {item : Reader α} {separator : Token} {ts : List Token}
    (missing : item ts = none) : items item separator ts = ([], ts) := by
  rw [items, missing]

/-- Items that are read from their tokens before anything that may follow are read in a list, too. -/
private theorem items_intercalate {α : Type} {item : Reader α} (separator : Token)
    {follows : List Token → Prop} (before : ∀ rest, follows (separator :: rest))
    {xs : List α} {tss : List (List Token)}
    (each : List.Forall₂ (fun x ts => ∀ rest, follows rest → item (ts ++ rest) = some (x, rest)) xs tss)
    {rest : List Token} (ends : follows rest) (other : rest.head? ≠ some separator)
    (missing : item rest = none) :
    items item separator ([separator].intercalate tss ++ rest) = (xs, rest) := by
  induction each with
  | nil => exact items_none missing
  | @cons x ts xs tss first later ih =>
    cases later with
    | nil =>
      have read : item (ts ++ rest) = some (x, rest) := first rest ends
      rw [List.intercalate_singleton, items, read]
      cases rest with
      | nil => rfl
      | cons t rest =>
        have different : t ≠ separator := by simpa using other
        simp [different]
    | @cons y us ys uss second others =>
      rw [List.intercalate_cons_cons, List.append_assoc, List.append_assoc, List.singleton_append]
      have read := first (separator :: ([separator].intercalate (us :: uss) ++ rest)) (before _)
      -- The reader only goes on while the tokens get fewer.
      have shorter : ([separator].intercalate (us :: uss) ++ rest).length <
          (ts ++ separator :: ([separator].intercalate (us :: uss) ++ rest)).length := by
        simp only [List.length_append, List.length_cons]; omega
      rw [items, read]
      dsimp only
      rw [if_pos ⟨rfl, shorter⟩, ih]

private theorem read_each {α : Type} {item : Reader α} {write : α → List Token} {follows : List Token → Prop}
    (read : ∀ x rest, follows rest → item (write x ++ rest) = some (x, rest)) (xs : List α) :
    List.Forall₂ (fun x ts => ∀ rest, follows rest → item (ts ++ rest) = some (x, rest)) xs (xs.map write) := by
  rw [List.forall₂_map_right_iff, List.forall₂_same]
  exact fun x _ => read x

private theorem enclosed_tokens {α : Type} {item : Reader α} {xs : List α} {tss : List (List Token)}
    (each : List.Forall₂ (fun x ts => ∀ rest, True → item (ts ++ rest) = some (x, rest)) xs tss)
    {rest : List Token} (missing : item (.mark ')' :: rest) = none) :
    enclosed item (enclosedTokens tss ++ rest) = some (xs, rest) := by
  have read := items_intercalate (.mark ',') (fun _ => trivial) each trivial (by simp) missing
  simp [enclosed, enclosedTokens, expect_self, read]

private theorem name_token (s : String) (rest : List Token) : name (.name s :: rest) = some (s, rest) := rfl

private theorem each_name (names : List String) :
    List.Forall₂ (fun s ts => ∀ rest, True → name (ts ++ rest) = some (s, rest)) names (nameTokens names) :=
  read_each (fun s rest _ => name_token s rest) names

private theorem items_names (names : List String) (rest : List Token) (other : rest.head? ≠ some (.mark ','))
    (missing : name rest = none) :
    items name (.mark ',') ([Token.mark ','].intercalate (nameTokens names) ++ rest) = (names, rest) :=
  items_intercalate (.mark ',') (fun _ => trivial) (each_name names) trivial other missing

/-- The values that are bound to the placeholders from the one with the number `next` on. -/
def Binds (params : List Value) (next : Nat) (vs : List Value) : Prop :=
  ∃ before after, params = before ++ vs ++ after ∧ next = before.length + 1

private theorem Binds.left {params : List Value} {next : Nat} (vs ws : List Value)
    (binds : Binds params next (vs ++ ws)) : Binds params next vs := by
  obtain ⟨before, after, rfl, rfl⟩ := binds
  exact ⟨before, ws ++ after, by simp, rfl⟩

private theorem Binds.right {params : List Value} {next : Nat} (vs ws : List Value)
    (binds : Binds params next (vs ++ ws)) : Binds params (next + vs.length) ws := by
  obtain ⟨before, after, rfl, rfl⟩ := binds
  exact ⟨before ++ vs, after, by simp, by rw [List.length_append]; omega⟩

private theorem number_toString (n : Nat) : number (toString n) = n := by
  have digits : (toString n).toList = Nat.toDigits 10 n := Nat.toList_repr
  rw [number, digits, Nat.ofDigitChars_ten_toDigits]

/-- A placeholder is read as the value that is bound to it. -/
private theorem parameter_placeholder {params : List Value} {next : Nat} {v : Value}
    (binds : Binds params next [v]) (rest : List Token) :
    parameter params (.numbered next :: rest) = some (v, rest) := by
  obtain ⟨before, after, rfl, rfl⟩ := binds
  rw [Token.numbered, parameter, number_toString, if_neg (Nat.succ_ne_zero _), Nat.add_sub_cancel]
  simp

private theorem parameter_placeholders {params : List Value} {next : Nat} {vs : List Value}
    (binds : Binds params next vs) :
    List.Forall₂ (fun v ts => ∀ rest, True → parameter params (ts ++ rest) = some (v, rest)) vs
      (placeholderTokens next vs.length) := by
  induction vs generalizing next with
  | nil => exact .nil
  | cons v vs ih =>
    rw [placeholderTokens, List.length_cons, List.range'_succ, List.map_cons]
    refine .cons (fun rest _ => parameter_placeholder (Binds.left [v] vs binds) rest) ?_
    exact ih (Binds.right [v] vs binds)

private theorem enclosed_placeholders {params : List Value} {next : Nat} {vs : List Value}
    (binds : Binds params next vs) (rest : List Token) :
    enclosed (parameter params) (enclosedTokens (placeholderTokens next vs.length) ++ rest) = some (vs, rest) :=
  enclosed_tokens (parameter_placeholders binds) rfl

/-! ## The clauses -/

private theorem comparison_sign (op : Comparison) : comparison? op.sign = some op := by
  cases op <;> rfl

private theorem test_tokens {params : List Value} {next : Nat} {t : Test}
    (binds : Binds params next t.operands) (rest : List Token) :
    test params (Test.operatorTokens t ++ (Test.valueTokens next t ++ rest)) = some (t, rest) := by
  cases t with
  | compare op v =>
    have value : parameter params (.numbered next :: rest) = some (v, rest) :=
      parameter_placeholder binds rest
    simp [Test.operatorTokens, Test.valueTokens, test, comparison_sign, value]
  | among vs =>
    have values := enclosed_placeholders binds rest
    simp only [Test.operands] at values
    simp [Test.operatorTokens, Test.valueTokens, test, values]
  | notAmong vs =>
    have values := enclosed_placeholders binds rest
    simp only [Test.operands] at values
    simp [Test.operatorTokens, Test.valueTokens, test, values]
  | between low high =>
    have lows := parameter_placeholder (Binds.left [low] [high] binds)
    have highs := parameter_placeholder (Binds.right [low] [high] binds)
    simp only [List.length_singleton] at highs
    simp [Test.operatorTokens, Test.valueTokens, test, lows, highs, expect_self]
  | isNull => rfl
  | isNotNull => rfl

private theorem condition_tokens {params : List Value} {next : Nat} {c : Condition}
    (binds : Binds params next c.test.operands) (rest : List Token) :
    condition params (Condition.tokens next c ++ rest) = some (c, rest) := by
  have asked := test_tokens binds rest
  simp [condition, Condition.tokens, name_token, asked]

private theorem each_condition {params : List Value} {next : Nat} {cs : List Condition}
    (binds : Binds params next (operands cs)) :
    List.Forall₂ (fun c ts => ∀ rest, True → condition params (ts ++ rest) = some (c, rest)) cs
      (conditionTokens next cs) := by
  induction cs generalizing next with
  | nil => exact .nil
  | cons c rest ih =>
    have split : operands (c :: rest) = c.test.operands ++ operands rest := by simp [operands]
    rw [split] at binds
    exact .cons (fun rest _ => condition_tokens (binds.left _ _) rest) (ih (binds.right _ _))

private theorem conditions_other {params : List Value} {ts : List Token} (other : ts.head? ≠ some (.word "WHERE")) :
    conditions params ts = ([], ts) := by
  unfold conditions
  split
  · simp at other
  · rfl

private theorem conditions_where {params : List Value} {next : Nat} {cs : List Condition}
    (binds : Binds params next (operands cs)) (rest : List Token) (noWhere : rest.head? ≠ some (.word "WHERE"))
    (noAnd : rest.head? ≠ some (.word "AND")) (noName : name rest = none) :
    conditions params (whereTokens next cs ++ rest) = (cs, rest) := by
  cases cs with
  | nil => exact conditions_other noWhere
  | cons c more =>
    have missing : condition params rest = none := by simp [condition, noName]
    exact items_intercalate (.word "AND") (fun _ => trivial) (each_condition binds) trivial noAnd missing

private theorem conditions_last {params : List Value} {next : Nat} {cs : List Condition}
    (binds : Binds params next (operands cs)) : conditions params (whereTokens next cs) = (cs, []) := by
  have read := conditions_where binds [] (by simp) (by simp) rfl
  rwa [List.append_nil] at read

private theorem assignment_tokens {params : List Value} {next : Nat} {column : String} {v : Value}
    (binds : Binds params next [v]) (rest : List Token) :
    assignment params ([.name column, .sign "=", .numbered next] ++ rest) = some ((column, v), rest) := by
  have value := parameter_placeholder binds rest
  simp [assignment, name_token, expect_self, value]

private theorem each_assignment {params : List Value} {next : Nat} {values : List (String × Value)}
    (binds : Binds params next (values.map (·.2))) :
    List.Forall₂ (fun a ts => ∀ rest, True → assignment params (ts ++ rest) = some (a, rest)) values
      (assignmentTokens next values) := by
  induction values generalizing next with
  | nil => exact .nil
  | cons head rest ih =>
    obtain ⟨column, v⟩ := head
    have split : Binds params next ([v] ++ rest.map (·.2)) := binds
    exact .cons (fun rest _ => assignment_tokens (split.left _ _) rest) (ih (split.right _ _))

/-- What comes after a sort key: no direction is left over. -/
private def AfterKey (rest : List Token) : Prop :=
  rest.head? ≠ some (.word "ASC") ∧ rest.head? ≠ some (.word "DESC")

private theorem sortKey_tokens (k : SortKey) {rest : List Token} (after : AfterKey rest) :
    sortKey (k.tokens ++ rest) = some (k, rest) := by
  obtain ⟨column, direction⟩ := k
  cases direction with
  | some d => cases d <;> rfl
  | none =>
    rw [SortKey.tokens, Option.elim_none, List.singleton_append, sortKey, name_token]
    simp only [Option.bind_eq_bind, Option.bind_some]
    split
    · exact absurd rfl after.1
    · exact absurd rfl after.2
    · rfl

private theorem orderKeys_other {ts : List Token} (other : ts.head? ≠ some (.word "ORDER")) :
    orderKeys ts = ([], ts) := by
  unfold orderKeys
  split
  · simp at other
  · rfl

private theorem orderKeys_order (keys : List SortKey) (rest : List Token) (after : AfterKey rest)
    (noOrder : rest.head? ≠ some (.word "ORDER")) (noComma : rest.head? ≠ some (.mark ','))
    (noName : name rest = none) : orderKeys (orderTokens keys ++ rest) = (keys, rest) := by
  cases keys with
  | nil => exact orderKeys_other noOrder
  | cons k more =>
    have missing : sortKey rest = none := by simp [sortKey, noName]
    have each := read_each (fun k _ after => sortKey_tokens k after) (k :: more)
    exact items_intercalate (.mark ',') (fun _ => ⟨by simp, by simp⟩) each after noComma missing

private theorem toInt_rowCount (n : UInt32) : UInt32.ofNat (Int64.ofNat n.toNat).toInt.toNat = n := by
  have small : n.toNat < 2 ^ 63 := Nat.lt_trans n.toNat_lt (by decide)
  rw [Int64.toInt_ofNat_of_lt small, Int.toNat_natCast, UInt32.ofNat_toNat]

private theorem rows_placeholder {params : List Value} {next : Nat} {n : UInt32}
    (binds : Binds params next [rowCount n]) (rest : List Token) :
    rows params (.numbered next :: rest) = some (n, rest) := by
  have value := parameter_placeholder binds rest
  simp only [rows, value, rowCount, Option.bind_eq_bind, Option.bind_some, toInt_rowCount, Option.pure_def]

/-- A placeholder after the first word of a page is its limit. -/
private theorem page_limit (params : List Value) (next : Nat) (ts : List Token) :
    page params (.word "LIMIT" :: .numbered next :: ts) = (do
      let (l, ts) ← rows params (.numbered next :: ts)
      match ts with
      | .word "OFFSET" :: ts =>
        let (o, ts) ← rows params ts
        return (⟨some l, some o⟩, ts)
      | ts => return ({ limit := some l }, ts)) :=
  rfl

private theorem page_tokens {params : List Value} {next : Nat} {p : Page} (binds : Binds params next (pageValues p)) :
    page params (pageTokens next p) = some (p, []) := by
  obtain ⟨limit, offset⟩ := p
  cases limit with
  | none =>
    cases offset with
    | none => rfl
    | some o =>
      have skipped : rows params [.numbered next] = some (o, []) := rows_placeholder binds []
      simp [pageTokens, page, skipped]
  | some l =>
    have limited := rows_placeholder (Binds.left [rowCount l] (offset.toList.map rowCount) binds)
    cases offset with
    | none => simp [pageTokens, page_limit, limited]
    | some o =>
      have skipped := rows_placeholder (Binds.right [rowCount l] [rowCount o] binds) []
      simp only [List.length_singleton] at skipped
      simp [pageTokens, page_limit, limited, skipped]

/-! ## The statements -/

private theorem conflict_tokens (m : Conflict) (rest : List Token) (noOr : rest.head? ≠ some (.word "OR")) :
    mode (m.tokens ++ rest) = some (m, rest) := by
  cases m with
  | unspecified =>
    show mode rest = some (.unspecified, rest)
    unfold mode
    split
    · simp at noOr
    · rfl
  | abort => rfl
  | fail => rfl
  | ignore => rfl
  | replace => rfl
  | rollback => rfl

private theorem row_tokens {params : List Value} {values : List (String × Value)}
    (binds : Binds params 1 (values.map (·.2))) : row params (rowTokens values) = some (values, []) := by
  cases values with
  | nil => rfl
  | cons first more =>
    have columns : ∀ rest, enclosed name (enclosedTokens (nameTokens ((first :: more).map (·.1))) ++
        (.word "VALUES" :: rest)) = some ((first :: more).map (·.1), .word "VALUES" :: rest) :=
      fun rest => enclosed_tokens (each_name _) rfl
    have values : enclosed (parameter params) (enclosedTokens (placeholderTokens 1 (first :: more).length)) =
        some ((first :: more).map (·.2), []) := by
      have read := enclosed_placeholders binds []
      rwa [List.length_map, List.append_nil] at read
    have other : ∀ ts, rowTokens (first :: more) = .word "DEFAULT" :: .word "VALUES" :: ts → False := by
      simp [rowTokens, enclosedTokens]
    rw [row.eq_2 params _ other, rowTokens, if_neg (by simp), columns]
    simp only [Option.bind_eq_bind, Option.bind_some, expect_self, values, Option.pure_def]
    have zipped : ((first :: more).map (·.1)).zip ((first :: more).map (·.2)) = first :: more :=
      (List.zip_of_prod rfl rfl).symm
    rw [zipped]

private theorem insertion_tokens {params : List Value} {i : Insertion}
    (binds : Binds params 1 (i.values.map (·.2))) : statement params i.tokens = some (.insert i, []) := by
  have moded := conflict_tokens i.mode (.word "INTO" :: .name i.table :: rowTokens i.values) (by simp)
  have valued := row_tokens binds
  simp [statement, insertion, Insertion.tokens, moded, expect_self, name_token, valued]

/-- What comes after the conditions of a selection begins with one of two words. -/
private theorem clauses_head (keys : List SortKey) (next : Nat) (p : Page) {t : Token}
    (noOrder : t ≠ .word "ORDER") (noLimit : t ≠ .word "LIMIT") :
    (orderTokens keys ++ pageTokens next p).head? ≠ some t := by
  cases keys with
  | nil => obtain ⟨_ | l, _ | o⟩ := p <;> simp [orderTokens, pageTokens, noLimit.symm]
  | cons k more => simp [orderTokens, noOrder.symm]

private theorem clauses_name (keys : List SortKey) (next : Nat) (p : Page) :
    name (orderTokens keys ++ pageTokens next p) = none := by
  cases keys with
  | nil => obtain ⟨_ | l, _ | o⟩ := p <;> rfl
  | cons k more => rfl

private theorem page_head (next : Nat) (p : Page) {t : Token} (noLimit : t ≠ .word "LIMIT") :
    (pageTokens next p).head? ≠ some t := by
  obtain ⟨_ | l, _ | o⟩ := p <;> simp [pageTokens, noLimit.symm]

private theorem selection_tokens {params : List Value} {s : Selection}
    (binds : Binds params 1 (operands s.conditions ++ pageValues s.page)) :
    statement params s.tokens = some (.select s, []) := by
  -- A clause ends where the next one begins, since no clause goes on with the words that begin one.
  have columns := items_names s.columns (.word "FROM" :: .name s.table ::
    (whereTokens 1 s.conditions ++ (orderTokens s.order ++
      pageTokens ((operands s.conditions).length + 1) s.page))) (by simp) rfl
  have filtered := conditions_where (binds.left _ _)
    (orderTokens s.order ++ pageTokens ((operands s.conditions).length + 1) s.page)
    (clauses_head _ _ _ (by simp) (by simp)) (clauses_head _ _ _ (by simp) (by simp)) (clauses_name _ _ _)
  have ordered := orderKeys_order s.order (pageTokens ((operands s.conditions).length + 1) s.page)
    ⟨page_head _ _ (by simp), page_head _ _ (by simp)⟩ (page_head _ _ (by simp)) (page_head _ _ (by simp))
    (clauses_name [] _ _)
  have paged : page params (pageTokens ((operands s.conditions).length + 1) s.page) = some (s.page, []) :=
    page_tokens (Nat.add_comm 1 _ ▸ binds.right _ _)
  have opened : statement params s.tokens = (selection params s.tokens.tail).map (Prod.map .select id) := by
    rw [Selection.tokens]
    cases s.columns with
    | nil => rfl
    | cons first others => cases others <;> rfl
  rw [opened, Selection.tokens, List.tail_cons, selection]
  simp only [columns, expect_self, name_token, filtered, ordered, paged, Option.bind_eq_bind, Option.bind_some,
    Option.pure_def, Option.map_some, Prod.map, id_eq]

private theorem tally_tokens {params : List Value} {t : Tally} (binds : Binds params 1 (operands t.conditions)) :
    statement params t.tokens = some (.count t, []) := by
  have filtered := conditions_last binds
  simp [statement, tally, Tally.tokens, expect_self, name_token, filtered]

private theorem revision_tokens {params : List Value} {r : Revision}
    (binds : Binds params 1 (r.values.map (·.2) ++ operands r.conditions)) :
    statement params r.tokens = some (.update r, []) := by
  have assigned : items (assignment params) (.mark ',')
      ([Token.mark ','].intercalate (assignmentTokens 1 r.values) ++
        whereTokens (r.values.length + 1) r.conditions) =
      (r.values, whereTokens (r.values.length + 1) r.conditions) := by
    refine items_intercalate (.mark ',') (fun _ => trivial) (each_assignment (binds.left _ _)) trivial ?_ ?_
    · cases r.conditions <;> simp [whereTokens]
    · cases r.conditions <;> rfl
  have after : Binds params (r.values.length + 1) (operands r.conditions) := by
    have later := binds.right _ _
    rwa [List.length_map, Nat.add_comm] at later
  have filtered := conditions_last after
  simp [statement, revision, Revision.tokens, expect_self, name_token, assigned, filtered]

private theorem removal_tokens {params : List Value} {r : Removal}
    (binds : Binds params 1 (operands r.conditions)) : statement params r.tokens = some (.delete r, []) := by
  have filtered := conditions_last binds
  simp [statement, removal, Removal.tokens, expect_self, name_token, filtered]

/-- The tokens of a statement and the values it binds are read as the statement. -/
private theorem statement_tokens (s : Statement) : statement s.prepare.params s.tokens = some (s, []) := by
  have all : Binds s.prepare.params 1 s.prepare.params := ⟨[], [], by simp, rfl⟩
  cases s with
  | insert i => exact insertion_tokens (prepare_params (.insert i) ▸ all)
  | select s => exact selection_tokens (prepare_params (.select s) ▸ all)
  | count t => exact tally_tokens (prepare_params (.count t) ▸ all)
  | update r => exact revision_tokens (prepare_params (.update r) ▸ all)
  | delete r => exact removal_tokens (prepare_params (.delete r) ▸ all)

end Reading

/-- A statement is read back from its text and its parameters. -/
theorem read_prepare (s : Statement) : s.prepare.read = some s := by
  have tokens : Token.lex s.prepare.sql = some s.tokens := (lexes_statement s).read
  simp [Prepared.read, tokens, Reading.statement_tokens s]

end Tabular.Sql
