import Mathlib.Algebra.Order.Floor.Div
import Tabular.Proofs.OrderedRows

/-!
# Pages of a selection

A page is a part of the whole selection: the rows that were skipped are dropped from its front, and no more are taken
than were asked for. What a program reads in one page after the other is therefore the whole selection, each instance
once (`selected_pages`). The first instance of a query is asked for as a page of one row, in place of the limit of the
query, so that a query for no rows has a first instance, too (`first_of_select`). The numbers of a page are parameters
of the statement, after those of the conditions: a query that leaves no room for them is read as a whole only.
-/

namespace Tabular

open Sql

/-- The same request for another page. -/
def Query.paged (q : Query) (p : Page) : Query :=
  { q with page := p }

/-- A statement may have so many more parameters beside those of the conditions. -/
def Query.HasRoom (q : Query) (n : Nat) : Prop :=
  (operands q.conditions).length + n ≤ Database.maxParameters

instance (q : Query) (n : Nat) : Decidable (q.HasRoom n) :=
  inferInstanceAs (Decidable (_ ≤ _))

namespace Database

variable {α β : Type}

theorem cut_all (rows : List α) : cut {} rows = rows := rfl

theorem cut_forall₂ {R : α → β → Prop} {rows : List α} {xs : List β} (related : List.Forall₂ R rows xs) (p : Page) :
    List.Forall₂ R (cut p rows) (cut p xs) := by
  have behind := List.forall₂_drop (p.offset.elim 0 (·.toNat)) related
  rw [cut, cut]
  cases p.limit with
  | none => exact behind
  | some n => exact List.forall₂_take n.toNat behind

theorem head?_cut {p : Page} (wanted : p.limit ≠ some 0) (rows : List α) :
    (cut p rows).head? = rows[p.offset.elim 0 (·.toNat)]? := by
  rw [cut, ← List.head?_drop]
  cases limit : p.limit with
  | none => rfl
  | some n =>
    have positive : n.toNat ≠ 0 := fun zero => wanted (limit.trans (congrArg some (UInt32.toNat_inj.mp zero)))
    rw [Option.elim_some, List.head?_take, if_neg positive]

end Database

namespace Entity

variable {e : Entity} {q : Query} {st : Selection}

theorem selection_paged (accepted : e.selection q = .ok st) (p : Page) :
    e.selection (q.paged p) = .ok { st with page := p } := by
  obtain ⟨conds, conditions, ordering⟩ := Checks.bind_eq_ok.mp accepted
  obtain ⟨keys, order, answer⟩ := Checks.bind_eq_ok.mp ordering
  obtain rfl := Except.ok.inj answer
  exact Checks.bind_eq_ok.mpr ⟨conds, conditions, Checks.bind_eq_ok.mpr ⟨keys, order, rfl⟩⟩

theorem prepare_of_selection (accepted : e.selection q = .ok st) :
    e.prepare (.select q) = .ok (Statement.select st).prepare ∧
      (Statement.select st).prepare.read = some (.select st) := by
  have answered : e.statement (.select q) = .ok (.select st) := Checks.map_eq_ok.mpr ⟨st, accepted, rfl⟩
  exact ⟨Checks.map_eq_ok.mpr ⟨_, answered, rfl⟩, read_prepare _⟩

/-- A selection within the limits has room for the numbers of its own page. -/
theorem hasRoom_of_selection (accepted : e.selection q = .ok st) (within : (Statement.select st).WithinLimits) :
    q.HasRoom (pageValues q.page).length := by
  obtain ⟨few, _⟩ := Database.withinLimits_select.mp within
  obtain ⟨_, _, rfl⟩ := selection_eq_ok accepted
  exact few

end Entity

namespace Store

open Session

variable {α : Type} {s : Schema} {e : Entity} {μ : Mapping α} {db : Database} {q : Query} {st : Selection}

theorem outcome_loadAll (e : Entity) (μ : Mapping α) (st : Selection) : (loadAll μ e st).outcome db =
    ((db.select st).mapError .database >>= fun cells => cells.mapM (e.load μ), db) := by
  rw [loadAll, outcome_bind, outcome_ask]
  cases db.select st with
  | error f => rfl
  | ok cells =>
    show outcome _ db = (cells.mapM (e.load μ), db)
    cases cells.mapM (e.load μ) <;> rfl

theorem outcome_select (described : s.describe μ.name = .ok e) (accepted : e.selection q = .ok st) :
    (select s μ q).outcome db = ((db.select st).mapError .database >>= fun cells => cells.mapM (e.load μ), db) := by
  rw [select, outcome_bind, entity, outcome_mapped, described]
  show outcome _ db = _
  rw [outcome_bind, outcome_mapped, accepted]
  exact outcome_loadAll e μ st

/-- All pages of a query show parts of one list of rows, those that there is room to ask for. -/
theorem Hosts.select_paged (hosts : Hosts s db) (consistent : s.Consistent) (described : s.describe μ.name = .ok e)
    (accepted : e.selection q = .ok st) (within : (Statement.select { st with page := {} }).WithinLimits) :
    ∃ rows, e.Ranks db q rows ∧ ∀ p, (select s μ (q.paged p)).outcome db =
      (if q.HasRoom (pageValues p).length then (Database.cut p rows).mapM fun r => e.load μ r.cells
        else .error (.database .tooManyParameters), db) := by
  obtain ⟨keys, order, rfl⟩ := Entity.selection_eq_ok accepted
  have known := mem_of_describe described
  have valid := Entity.violations_eq_nil.mp (consistent.valid e known)
  obtain ⟨t, key, k, found, table, keeps⟩ := hosts.exists_table consistent known
  refine ⟨_, table.ranks_sort keeps found (Entity.writes_of_sortKeys valid table.keyAt order), fun p => ?_⟩
  rw [outcome_select described (Entity.selection_paged accepted p)]
  split
  · have fits := (Database.withinLimits_paged within p).mpr ‹_›
    rw [(Entity.select_sorted table found keys p).mpr ⟨fits, rfl⟩, ← Database.cut_map]
    exact congrArg (·, db) (List.mapM_map ..)
  · rw [Database.select_of_parameters]
    · rfl
    · rw [Database.length_params_select]
      exact Nat.lt_of_not_le ‹_›

/-- When the columns of a query tell its rows apart, its pages show parts of the one list in its order. -/
theorem Hosts.select_ranked (hosts : Hosts s db) (consistent : s.Consistent) (described : s.describe μ.name = .ok e)
    (accepted : e.selection q = .ok st) (within : (Statement.select { st with page := {} }).WithinLimits)
    (apart : e.TellsApart db q) {rows : List Record} (ranks : e.Ranks db q rows) (p : Page) :
    (select s μ (q.paged p)).outcome db =
      (if q.HasRoom (pageValues p).length then (Database.cut p rows).mapM fun r => e.load μ r.cells
        else .error (.database .tooManyParameters), db) := by
  obtain ⟨other, ranks', each⟩ := hosts.select_paged consistent described accepted within
  obtain rfl : other = rows := ranks.unique apart ranks'
  exact each p

/-- What a program reads that asks for `n` pages of `l` rows, one after the other. -/
def pages (s : Schema) (μ : Mapping α) (q : Query) (l : UInt32) : Nat → Session (List α)
  | 0 => return []
  | n + 1 => do
    let before ← pages s μ q l n
    let page ← select s μ (q.paged ⟨some l, some (UInt32.ofNat (n * l.toNat))⟩)
    return before ++ page

/-- Pages that follow each other are read as one longer page, as long as the offsets can be asked for. -/
theorem outcome_pages {xs : List α} {l : UInt32} (paged : ∀ o : UInt32,
      (select s μ (q.paged ⟨some l, some o⟩)).outcome db = (.ok ((xs.drop o.toNat).take l.toNat), db)) (n : Nat)
    (offsets : ∀ i < n, i * l.toNat < 2 ^ 32) :
    (pages s μ q l n).outcome db = (.ok (xs.take (n * l.toNat)), db) := by
  induction n with
  | zero =>
    rw [Nat.zero_mul, List.take_zero]
    rfl
  | succ n ih =>
    have before := ih fun i inside => offsets i (Nat.lt_succ_of_lt inside)
    have offset : (UInt32.ofNat (n * l.toNat)).toNat = n * l.toNat :=
      UInt32.toNat_ofNat_of_lt (offsets n (Nat.lt_succ_self n))
    rw [pages, bind_eq_ok]
    refine ⟨_, _, before, ?_⟩
    rw [bind_eq_ok]
    refine ⟨_, _, paged _, ?_⟩
    rw [offset, Nat.succ_mul, List.take_add]
    rfl

theorem outcome_pages_all {xs : List α} {l : UInt32} (paged : ∀ o : UInt32,
      (select s μ (q.paged ⟨some l, some o⟩)).outcome db = (.ok ((xs.drop o.toNat).take l.toNat), db))
    (positive : 0 < l) (few : xs.length ≤ 2 ^ 32) :
    (pages s μ q l (xs.length ⌈/⌉ l.toNat)).outcome db = (.ok xs, db) := by
  have width : 0 < l.toNat := UInt32.lt_iff_toNat_lt.mp positive
  rw [outcome_pages paged]
  · have enough : xs.length ≤ (xs.length ⌈/⌉ l.toNat) * l.toNat := by
      rw [Nat.mul_comm]
      exact le_smul_ceilDiv width
    rw [List.take_of_length_le enough]
  · intro i inside
    have more : l.toNat * i < xs.length := by
      rw [← Nat.not_le, ← ceilDiv_le_iff_le_mul width, Nat.not_le]
      exact inside
    rw [Nat.mul_comm]
    exact Nat.lt_of_lt_of_le more few

/-- A page of a selection that is read as a whole is a part of it. -/
theorem Hosts.select_of_all (hosts : Hosts s db) (consistent : s.Consistent) (described : s.describe μ.name = .ok e)
    {xs : List α} {db' : Database} (full : (select s μ (q.paged {})).outcome db = (.ok xs, db')) :
    db' = db ∧ (∃ st, e.selection q = .ok st) ∧
      (∃ rows, e.Ranks db q rows ∧ List.Forall₂ (fun r x => e.load μ r.cells = .ok x) rows xs) ∧
      ∀ p, (select s μ (q.paged p)).outcome db =
        (if q.HasRoom (pageValues p).length then .ok (Database.cut p xs)
          else .error (.database .tooManyParameters), db) := by
  obtain ⟨d, st, cells, described', accepted, read, loaded, rfl⟩ := select_eq_ok full
  obtain rfl : e = d := Except.ok.inj (described.symm.trans described')
  obtain ⟨within, _⟩ := Database.select_iff.mp read
  have asked : e.selection q = .ok { st with page := q.page } := Entity.selection_paged accepted q.page
  have unpaged : (Statement.select { st with page := {} }).WithinLimits := Database.withinLimits_unpaged within
  obtain ⟨rows, ranks, each⟩ := hosts.select_paged consistent described asked unpaged
  have room : q.HasRoom 0 := Entity.hasRoom_of_selection accepted within
  obtain ⟨all, _⟩ := Prod.mk.inj ((each {}).symm.trans full)
  have shown := Checks.mapM_eq_ok.mp ((if_pos room).symm.trans all)
  rw [Database.cut_all] at shown
  refine ⟨rfl, ⟨_, asked⟩, ⟨rows, ranks, shown⟩, fun p => ?_⟩
  rw [← Checks.mapM_eq_ok.mpr (Database.cut_forall₂ shown p)]
  exact each p

/-- The pages of a query are parts of what is read without a page: `l` instances are taken, `o` are dropped before.
Pages of `l` instances that follow each other make up the whole, with no instance lost or repeated. This is so in the
one order that the database reads the rows in; when the columns of the query tell its rows apart, as the key does, it
is the only order that was asked for. The text and the parameters of each page are read as the selection it is. Only
where the statement has no room for the numbers of the page beside the operands of the conditions it is refused. -/
theorem selected_pages {cat : Catalog} {m : Migration} {db₀ db' : Database} {xs : List α}
    (made : Migration.ofCatalog cat = .ok m) (created : m.Creates db₀) (reached : Reaches m.schema db₀ db)
    (described : m.schema.describe μ.name = .ok e)
    (full : (select m.schema μ (q.paged {})).outcome db = (.ok xs, db')) :
    db' = db ∧
    (∃ rows, e.Ranks db q rows ∧ List.Forall₂ (fun r x => e.load μ r.cells = .ok x) rows xs ∧
      (e.TellsApart db q → ∀ other, e.Ranks db q other → other = rows)) ∧
    (∀ k d, e.key? = some k → (k.name, d) ∈ e.ranking q.order → e.TellsApart db q) ∧
    (∀ p, ∃ text st, e.prepare (.select (q.paged p)) = .ok text ∧ text.read = some (.select st) ∧
      e.selection (q.paged p) = .ok st ∧ st.query = q.paged p) ∧
    (∀ l o : UInt32, (select m.schema μ (q.paged ⟨some l, some o⟩)).outcome db =
      (if q.HasRoom 2 then .ok ((xs.drop o.toNat).take l.toNat) else .error (.database .tooManyParameters), db)) ∧
    (∀ l : UInt32, (select m.schema μ (q.paged ⟨some l, none⟩)).outcome db =
      (if q.HasRoom 1 then .ok (xs.take l.toNat) else .error (.database .tooManyParameters), db)) ∧
    (∀ o : UInt32, (select m.schema μ (q.paged ⟨none, some o⟩)).outcome db =
      (if q.HasRoom 1 then .ok (xs.drop o.toNat) else .error (.database .tooManyParameters), db)) ∧
    (q.HasRoom 2 → ∀ (l : UInt32) (n : Nat), (∀ i < n, i * l.toNat < 2 ^ 32) →
      (pages m.schema μ q l n).outcome db = (.ok (xs.take (n * l.toNat)), db)) ∧
    (q.HasRoom 2 → ∀ l : UInt32, 0 < l → xs.length ≤ 2 ^ 32 →
      (pages m.schema μ q l (xs.length ⌈/⌉ l.toNat)).outcome db = (.ok xs, db)) := by
  have consistent := Migration.consistent_of_ofCatalog made
  have hosts := reached.hosts consistent created.hosts
  obtain ⟨same, ⟨st, accepted⟩, ⟨rows, ranks, loaded⟩, paged⟩ := hosts.select_of_all consistent described full
  have both : q.HasRoom 2 → ∀ l o : UInt32, (select m.schema μ (q.paged ⟨some l, some o⟩)).outcome db =
      (.ok ((xs.drop o.toNat).take l.toNat), db) := by
    intro room l o
    exact (paged ⟨some l, some o⟩).trans (congrArg (·, db) (if_pos room))
  refine ⟨same, ⟨rows, ranks, loaded, fun apart other => ranks.unique apart⟩, ?_, fun p => ?_,
    fun l o => paged ⟨some l, some o⟩, fun l => paged ⟨some l, none⟩, fun o => paged ⟨none, some o⟩,
    fun room l n => outcome_pages (both room l) n, fun room l => outcome_pages_all (both room l)⟩
  · intro k d key ordered
    exact hosts.tellsApart_of_key consistent (mem_of_describe described) key ordered
  · have asked := Entity.selection_paged accepted p
    obtain ⟨prepared, read⟩ := Entity.prepare_of_selection asked
    exact ⟨_, _, prepared, read, asked, Entity.query_selection asked⟩

/-- Three items in descending order, in pages of two. -/
theorem selected_pages_items :
    let cat : Catalog := ⟨"1", [Item.entity]⟩
    let m : Migration := ⟨⟨[Item.entity], [("Item", 0)]⟩, cat.fingerprint⟩
    let t : Timestamp := ⟨0, 0, by decide, by decide, by decide⟩
    let db₀ := m.up.after {}
    let db₁ := Operation.after m.schema db₀ (.insert Item.mapping (Item.new 0 "a" t))
    let db₂ := Operation.after m.schema db₁ (.insert Item.mapping (Item.new 0 "b" t))
    let db := Operation.after m.schema db₂ (.insert Item.mapping (Item.new 0 "c" t))
    let q : Query := { order := [("id", .descending)] }
    let xs := [Item.new 3 "c" t, Item.new 2 "b" t, Item.new 1 "a" t]
    Migration.ofCatalog cat = .ok m ∧ m.Creates db₀ ∧ Reaches m.schema db₀ db ∧
      m.schema.describe "Item" = .ok Item.entity ∧ Item.entity.TellsApart db q ∧
      (select m.schema Item.mapping (q.paged {})).outcome db = (.ok xs, db) ∧
      (select m.schema Item.mapping (q.paged ⟨some 2, some 1⟩)).outcome db =
        (.ok [Item.new 2 "b" t, Item.new 1 "a" t], db) ∧
      (pages m.schema Item.mapping q 2 2).outcome db = (.ok xs, db) := by
  intro cat m t db₀ db₁ db₂ db q xs
  have made : Migration.ofCatalog cat = .ok m := Migration.ofCatalog_eq_ok.mpr ⟨by decide +kernel, rfl⟩
  have done : (m.up.outcome {}).1 = .ok () := by decide +kernel
  have created : m.Creates db₀ := ⟨Session.outcome_eq done, by decide +kernel⟩
  have reached : Reaches m.schema db₀ db := .next _ (.next _ (.next _ .refl))
  have described : m.schema.describe Item.mapping.name = .ok Item.entity := by decide +kernel
  have consistent := Migration.consistent_of_ofCatalog made
  have hosts := reached.hosts consistent created.hosts
  have apart : Item.entity.TellsApart db q :=
    hosts.tellsApart_of_key consistent List.mem_cons_self rfl List.mem_cons_self
  have ranks : Item.entity.Ranks db q
      [⟨3, [.integer 3, .text "c", .integer 0]⟩, ⟨2, [.integer 2, .text "b", .integer 0]⟩,
        ⟨1, [.integer 1, .text "a", .integer 0]⟩] := ⟨by decide +kernel, by decide +kernel⟩
  obtain ⟨st, accepted, within⟩ : ∃ st, Item.entity.selection q = .ok st ∧
      (Statement.select { st with page := {} }).WithinLimits :=
    ⟨_, rfl, Database.withinLimits_select.mpr (by decide)⟩
  have full : (select m.schema Item.mapping (q.paged {})).outcome db = (.ok xs, db) := by
    refine (hosts.select_ranked consistent described accepted within apart ranks {}).trans (congrArg (·, db) ?_)
    decide +kernel
  obtain ⟨_, _, _, _, page, _, _, _, whole⟩ := selected_pages made created reached described full
  have room : q.HasRoom 2 := by decide
  have number : xs.length ⌈/⌉ (2 : UInt32).toNat = 2 := by decide
  have read := whole room 2 (by decide) (by decide)
  rw [number] at read
  exact ⟨made, created, reached, described, apart, full, (page 2 1).trans (congrArg (·, db) (if_pos room)), read⟩

/-- A list of as many values as a statement has parameters can be asked for, and no page of what is found. -/
theorem selected_pages_refused :
    ¬ ∀ (α : Type) (cat : Catalog) (m : Migration) (db₀ db : Database) (μ : Mapping α) (e : Entity) (q : Query)
      (xs : List α) (l : UInt32), Migration.ofCatalog cat = .ok m → m.Creates db₀ → Reaches m.schema db₀ db →
      m.schema.describe μ.name = .ok e → e.TellsApart db q →
      (select m.schema μ (q.paged {})).outcome db = (.ok xs, db) →
      (select m.schema μ (q.paged ⟨some l, none⟩)).outcome db = (.ok (xs.take l.toNat), db) := by
  intro claim
  let cat : Catalog := ⟨"1", [Item.entity]⟩
  let m : Migration := ⟨⟨[Item.entity], [("Item", 0)]⟩, cat.fingerprint⟩
  let db := m.up.after {}
  obtain ⟨vs, long, kinds⟩ : ∃ vs : List Value, vs.length = Database.maxParameters ∧
      ∀ v ∈ vs, v.kind? = some .integer := by
    refine ⟨List.replicate Database.maxParameters (.integer 0), List.length_replicate, fun v member => ?_⟩
    rw [List.eq_of_mem_replicate member]
    rfl
  let listed : Condition := ⟨"id", .among vs⟩
  let q : Query := { conditions := [listed] }
  have made : Migration.ofCatalog cat = .ok m := Migration.ofCatalog_eq_ok.mpr ⟨by decide +kernel, rfl⟩
  have done : (m.up.outcome {}).1 = .ok () := by decide +kernel
  have created : m.Creates db := ⟨Session.outcome_eq done, by decide +kernel⟩
  have described : m.schema.describe Item.mapping.name = .ok Item.entity := by decide +kernel
  have consistent := Migration.consistent_of_ofCatalog made
  have hosts := created.hosts
  have apart : Item.entity.TellsApart db q :=
    hosts.tellsApart_of_key consistent List.mem_cons_self rfl List.mem_cons_self
  have ranks : Item.entity.Ranks db q [] := by
    have found : db.table? Item.entity.tableName = some { definition := Item.entity.tableDefinition } := by
      decide +kernel
    refine ⟨?_, .nil⟩
    rw [Entity.matching_eq found]
    exact .refl _
  have suits : Item.entity.Suits listed := ⟨Item.entity.columns[0], rfl, kinds⟩
  have conditions : Item.entity.requireConditions q.conditions = .ok q.conditions :=
    Entity.requireConditions_eq_ok.mpr ⟨List.forall_mem_singleton.mpr suits, rfl⟩
  obtain ⟨keys, order, short⟩ : ∃ keys, Item.entity.sortKeys q.order = .ok keys ∧ keys.length ≤ Database.maxColumns :=
    ⟨_, rfl, by decide⟩
  have accepted : Item.entity.selection q =
      .ok ⟨Item.entity.tableName, Item.entity.columns.map (·.name), q.conditions, keys, q.page⟩ :=
    Checks.bind_eq_ok.mpr ⟨_, conditions, Checks.bind_eq_ok.mpr ⟨_, order, rfl⟩⟩
  -- The operands fill the statement, and the limit of a page would be one parameter more.
  have all : (operands q.conditions).length = Database.maxParameters := by
    rw [Database.length_operands_singleton]
    exact long
  have room : q.HasRoom 0 := Nat.le_of_eq all
  have full : ¬ q.HasRoom 1 := by
    rw [Query.HasRoom, all]
    exact Nat.not_succ_le_self _
  have narrow : (Item.entity.columns.map (·.name)).length ≤ Database.maxColumns := by decide
  have within : (Statement.select
      ⟨Item.entity.tableName, Item.entity.columns.map (·.name), q.conditions, keys, {}⟩).WithinLimits :=
    Database.withinLimits_select.mpr ⟨room, narrow, short, Database.depth_singleton listed⟩
  have each := hosts.select_ranked consistent described accepted within apart ranks
  have nothing : (select m.schema Item.mapping (q.paged {})).outcome db = (.ok [], db) :=
    (each {}).trans (congrArg (·, db) (if_pos room))
  have page := claim Item cat m db db Item.mapping Item.entity q [] 1 made created .refl described apart nothing
  have refused := (each ⟨some 1, none⟩).trans (congrArg (·, db) (if_neg full))
  rw [refused] at page
  cases page

/-! ## The first instance -/

/-- The first instance of a query is that of the first row that is not skipped, whatever the limit of the query. -/
theorem outcome_first {rows : List Record}
    (each : ∀ p, (select s μ (q.paged p)).outcome db =
      (if q.HasRoom (pageValues p).length then (Database.cut p rows).mapM fun r => e.load μ r.cells
        else .error (.database .tooManyParameters), db)) :
    (first s μ q).outcome db =
      (if q.HasRoom (pageValues q.first.page).length then
          rows[q.page.offset.elim 0 (·.toNat)]?.elim (.ok none) fun r => (e.load μ r.cells).map some
        else .error (.database .tooManyParameters), db) := by
  have one : q.first = q.paged { q.page with limit := some 1 } := rfl
  rw [first, outcome_bind, one, each]
  by_cases room : q.HasRoom (pageValues { q.page with limit := some 1 }).length
  · rw [if_pos room, Database.cut, Option.elim_some, ← List.head?_drop]
    show _ = (if q.HasRoom (pageValues { q.page with limit := some 1 }).length then _ else _, db)
    rw [if_pos room]
    cases rows.drop (q.page.offset.elim 0 (·.toNat)) with
    | nil => rfl
    | cons r rest =>
      have taken : (r :: rest).take (1 : UInt32).toNat = [r] := rfl
      rw [taken, List.mapM_cons, List.mapM_nil, List.head?_cons, Option.elim_some]
      cases e.load μ r.cells <;> rfl
  · rw [if_neg room]
    exact congrArg (·, db) (if_neg room).symm

/-- There is room for a limit of one in place of another. -/
theorem hasRoom_first (room : q.HasRoom (pageValues q.page).length) (limited : q.page.limit ≠ none) :
    q.HasRoom (pageValues q.first.page).length := by
  obtain ⟨conds, order, ⟨limit, offset⟩⟩ := q
  cases limit with
  | none => exact absurd rfl limited
  | some n => cases offset <;> exact room

/-- The first instance of a query is the first of those that are selected, unless none are asked for. If the limit
is 0 then nothing is selected, and the first instance is the one that would be selected without a limit. A query
without a limit may leave no room for the limit of one, and is refused then. -/
theorem first_of_select {cat : Catalog} {m : Migration} {db₀ db' : Database} {xs : List α}
    (made : Migration.ofCatalog cat = .ok m) (created : m.Creates db₀) (reached : Reaches m.schema db₀ db)
    (described : m.schema.describe μ.name = .ok e) (selected : (select m.schema μ q).outcome db = (.ok xs, db')) :
    db' = db ∧
    (∃ rows, e.Ranks db q rows ∧ (e.TellsApart db q → ∀ other, e.Ranks db q other → other = rows) ∧
      List.Forall₂ (fun r x => e.load μ r.cells = .ok x) (Database.cut q.page rows) xs ∧
      (first m.schema μ q).outcome db =
        (if q.HasRoom (pageValues q.first.page).length then
            rows[q.page.offset.elim 0 (·.toNat)]?.elim (.ok none) fun r => (e.load μ r.cells).map some
          else .error (.database .tooManyParameters), db)) ∧
    (q.page.limit ≠ none → q.HasRoom (pageValues q.first.page).length) ∧
    (q.page.limit ≠ some 0 → (first m.schema μ q).outcome db =
      (if q.HasRoom (pageValues q.first.page).length then .ok xs.head?
        else .error (.database .tooManyParameters), db)) ∧
    (q.page.limit = some 0 → xs = []) := by
  have consistent := Migration.consistent_of_ofCatalog made
  have hosts := reached.hosts consistent created.hosts
  obtain ⟨d, st, _, described', accepted, read, _⟩ := select_eq_ok selected
  obtain rfl : e = d := Except.ok.inj (described.symm.trans described')
  obtain ⟨within, _⟩ := Database.select_iff.mp read
  have room := Entity.hasRoom_of_selection accepted within
  obtain ⟨rows, ranks, each⟩ :=
    hosts.select_paged consistent described accepted (Database.withinLimits_unpaged within)
  obtain ⟨answer, rfl⟩ := Prod.mk.inj ((each q.page).symm.trans selected)
  have loaded := Checks.mapM_eq_ok.mp ((if_pos room).symm.trans answer)
  refine ⟨rfl, ⟨rows, ranks, fun apart other => ranks.unique apart, loaded, outcome_first each⟩, hasRoom_first room,
    fun wanted => ?_, fun none => ?_⟩
  · rw [outcome_first each, ← Database.head?_cut wanted]
    generalize Database.cut q.page rows = shown at loaded ⊢
    cases loaded with
    | nil => rfl
    | cons here _ =>
      rw [List.head?_cons, Option.elim_some, here]
      rfl
  · rw [Database.cut, none, Option.elim_some] at loaded
    exact List.forall₂_nil_left_iff.mp loaded

/-- Of two items, the second is the first that is not skipped. -/
theorem first_of_select_skipped :
    let cat : Catalog := ⟨"1", [Item.entity]⟩
    let m : Migration := ⟨⟨[Item.entity], [("Item", 0)]⟩, cat.fingerprint⟩
    let t : Timestamp := ⟨0, 0, by decide, by decide, by decide⟩
    let db₀ := m.up.after {}
    let db₁ := Operation.after m.schema db₀ (.insert Item.mapping (Item.new 0 "a" t))
    let db := Operation.after m.schema db₁ (.insert Item.mapping (Item.new 0 "b" t))
    let q : Query := { page := ⟨some 2, some 1⟩ }
    Migration.ofCatalog cat = .ok m ∧ m.Creates db₀ ∧ Reaches m.schema db₀ db ∧
      m.schema.describe "Item" = .ok Item.entity ∧
      (select m.schema Item.mapping q).outcome db = (.ok [Item.new 2 "b" t], db) ∧
      (first m.schema Item.mapping q).outcome db = (.ok (some (Item.new 2 "b" t)), db) := by
  intro cat m t db₀ db₁ db q
  have made : Migration.ofCatalog cat = .ok m := Migration.ofCatalog_eq_ok.mpr ⟨by decide +kernel, rfl⟩
  have done : (m.up.outcome {}).1 = .ok () := by decide +kernel
  have created : m.Creates db₀ := ⟨Session.outcome_eq done, by decide +kernel⟩
  have reached : Reaches m.schema db₀ db := .next _ (.next _ .refl)
  have described : m.schema.describe Item.mapping.name = .ok Item.entity := by decide +kernel
  have consistent := Migration.consistent_of_ofCatalog made
  have hosts := reached.hosts consistent created.hosts
  have apart : Item.entity.TellsApart db q :=
    hosts.tellsApart_of_key consistent List.mem_cons_self rfl List.mem_cons_self
  have ranks : Item.entity.Ranks db q
      [⟨1, [.integer 1, .text "a", .integer 0]⟩, ⟨2, [.integer 2, .text "b", .integer 0]⟩] :=
    ⟨by decide +kernel, by decide +kernel⟩
  obtain ⟨st, accepted, within⟩ : ∃ st, Item.entity.selection q = .ok st ∧
      (Statement.select { st with page := {} }).WithinLimits :=
    ⟨_, rfl, Database.withinLimits_select.mpr (by decide)⟩
  have selected : (select m.schema Item.mapping q).outcome db = (.ok [Item.new 2 "b" t], db) := by
    refine (hosts.select_ranked consistent described accepted within apart ranks q.page).trans (congrArg (·, db) ?_)
    decide +kernel
  obtain ⟨_, _, limited, headed, _⟩ := first_of_select made created reached described selected
  have answer := (headed (by decide)).trans (congrArg (·, db) (if_pos (limited (by decide))))
  exact ⟨made, created, reached, described, selected, answer⟩

/-- A query for no items selects none, and its first item is one. -/
theorem first_of_select_none :
    ¬ ∀ (α : Type) (cat : Catalog) (m : Migration) (db₀ db : Database) (μ : Mapping α) (e : Entity) (q : Query)
      (xs : List α), Migration.ofCatalog cat = .ok m → m.Creates db₀ → Reaches m.schema db₀ db →
      m.schema.describe μ.name = .ok e → e.TellsApart db q → (select m.schema μ q).outcome db = (.ok xs, db) →
      (first m.schema μ q).outcome db = (.ok xs.head?, db) := by
  intro claim
  let cat : Catalog := ⟨"1", [Item.entity]⟩
  let m : Migration := ⟨⟨[Item.entity], [("Item", 0)]⟩, cat.fingerprint⟩
  let t : Timestamp := ⟨0, 0, by decide, by decide, by decide⟩
  let db₀ := m.up.after {}
  let db := Operation.after m.schema db₀ (.insert Item.mapping (Item.new 0 "a" t))
  let q : Query := { page := ⟨some 0, none⟩ }
  have made : Migration.ofCatalog cat = .ok m := Migration.ofCatalog_eq_ok.mpr ⟨by decide +kernel, rfl⟩
  have done : (m.up.outcome {}).1 = .ok () := by decide +kernel
  have created : m.Creates db₀ := ⟨Session.outcome_eq done, by decide +kernel⟩
  have reached : Reaches m.schema db₀ db := .next _ .refl
  have described : m.schema.describe Item.mapping.name = .ok Item.entity := by decide +kernel
  have consistent := Migration.consistent_of_ofCatalog made
  have hosts := reached.hosts consistent created.hosts
  have apart : Item.entity.TellsApart db q :=
    hosts.tellsApart_of_key consistent List.mem_cons_self rfl List.mem_cons_self
  have ranks : Item.entity.Ranks db q [⟨1, [.integer 1, .text "a", .integer 0]⟩] :=
    ⟨by decide +kernel, by decide +kernel⟩
  obtain ⟨st, accepted, within⟩ : ∃ st, Item.entity.selection q = .ok st ∧
      (Statement.select { st with page := {} }).WithinLimits :=
    ⟨_, rfl, Database.withinLimits_select.mpr (by decide)⟩
  have each := hosts.select_ranked consistent described accepted within apart ranks
  have nothing := claim Item cat m db₀ db Item.mapping Item.entity q [] made created reached described apart
    (each q.page)
  have found : (Item.entity.load Item.mapping [.integer 1, .text "a", .integer 0]).map some ≠ .ok none := by
    decide +kernel
  exact found (congrArg Prod.fst ((outcome_first each).symm.trans nothing))

end Store

end Tabular
