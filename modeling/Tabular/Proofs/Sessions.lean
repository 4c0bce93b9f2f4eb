import Tabular.Proofs.Checks
import Tabular.Store.Session

/-!
# Sessions in sequence

What a session answers, and which database it leaves behind whether it answers or stops with a fault. Of what
the store does, only statements change the database, so that a session allows what its statements allow
(`Allows`); a session that only asks leaves the database as it was (`Reading`).
-/

namespace Tabular.Session

variable {α β : Type} {R : Database → Database → Prop} {db db' : Database}

/-- The answer of a session on a database, and the database that it leaves. -/
def outcome (x : Session α) (db : Database) : Except StoreFault α × Database :=
  x.run.run db

/-- The database that a session leaves, whatever it answers. -/
def after (x : Session α) (db : Database) : Database :=
  (x.outcome db).2

theorem outcome_eq {x : Session α} {answer : Except StoreFault α} (same : (x.outcome db).1 = answer) :
    x.outcome db = (answer, x.after db) :=
  Prod.ext same rfl

theorem outcome_bind (x : Session α) (next : α → Session β) :
    outcome (x >>= next) db =
      match outcome x db with
      | (.ok a, db') => outcome (next a) db'
      | (.error f, db') => (.error f, db') := by
  show (x.run.run db >>= fun p => (ExceptT.bindCont next p.1).run p.2) = _
  rw [outcome]
  rcases x.run.run db with ⟨_ | _, _⟩ <;> rfl

theorem outcome_mapped (r : Except Fault α) : outcome (mapped r) db = (r.mapError .mapping, db) := by
  cases r <;> rfl

theorem outcome_ask (question : Database → Except DatabaseFault α) :
    outcome (ask question) db = ((question db).mapError .database, db) := by
  rw [ask, outcome_bind]
  show outcome _ db = _
  cases question db <;> rfl

theorem outcome_execute (statement : Database → Except DatabaseFault (α × Database)) :
    outcome (execute statement) db =
      match statement db with
      | .ok (a, db') => (.ok a, db')
      | .error f => (.error (.database f), db) := by
  rw [execute, outcome_bind]
  show outcome _ db = _
  rcases statement db with _ | ⟨_, _⟩ <;> rfl

theorem bind_eq_ok {x : Session α} {next : α → Session β} {b : β} :
    outcome (x >>= next) db = (.ok b, db') ↔
      ∃ a db₁, outcome x db = (.ok a, db₁) ∧ outcome (next a) db₁ = (.ok b, db') := by
  rw [outcome_bind]
  rcases outcome x db with ⟨_ | a, db₁⟩
  · simp
  · simp

theorem mapped_eq_ok {r : Except Fault α} {a : α} :
    outcome (mapped r) db = (.ok a, db') ↔ r = .ok a ∧ db' = db := by
  rw [outcome_mapped, Prod.mk.injEq, Checks.mapError_eq_ok, eq_comm (a := db)]

theorem ask_eq_ok {question : Database → Except DatabaseFault α} {a : α} :
    outcome (ask question) db = (.ok a, db') ↔ question db = .ok a ∧ db' = db := by
  rw [outcome_ask, Prod.mk.injEq, Checks.mapError_eq_ok, eq_comm (a := db)]

theorem execute_eq_ok {statement : Database → Except DatabaseFault (α × Database)} {a : α} :
    outcome (execute statement) db = (.ok a, db') ↔ statement db = .ok (a, db') := by
  rw [outcome_execute]
  rcases statement db with _ | ⟨b, db₁⟩
  · simp
  · simp

variable {f : StoreFault}

theorem bind_eq_error {x : Session α} {next : α → Session β} :
    outcome (x >>= next) db = (.error f, db') ↔
      outcome x db = (.error f, db') ∨
        ∃ a db₁, outcome x db = (.ok a, db₁) ∧ outcome (next a) db₁ = (.error f, db') := by
  rw [outcome_bind]
  rcases outcome x db with ⟨g | a, db₁⟩
  · simp
  · simp

theorem mapped_eq_error {r : Except Fault α} :
    outcome (mapped r) db = (.error f, db') ↔ ∃ g, r = .error g ∧ f = .mapping g ∧ db' = db := by
  rw [outcome_mapped, Prod.mk.injEq]
  cases r with
  | ok a => simp [Except.mapError]
  | error g => simp [Except.mapError, eq_comm]

theorem mapped_bind_eq_error {r : Except Fault α} {next : α → Session β} :
    outcome (mapped r >>= next) db = (.error f, db') ↔
      (∃ g, r = .error g ∧ f = .mapping g ∧ db' = db) ∨ ∃ a, r = .ok a ∧ outcome (next a) db = (.error f, db') := by
  rw [bind_eq_error, mapped_eq_error]
  refine or_congr_right (exists_congr fun a => ?_)
  constructor
  · rintro ⟨_, passed, later⟩
    obtain ⟨accepted, rfl⟩ := mapped_eq_ok.mp passed
    exact ⟨accepted, later⟩
  · rintro ⟨accepted, later⟩
    exact ⟨db, mapped_eq_ok.mpr ⟨accepted, rfl⟩, later⟩

theorem execute_eq_error {statement : Database → Except DatabaseFault (α × Database)} :
    outcome (execute statement) db = (.error f, db') ↔ ∃ g, statement db = .error g ∧ f = .database g ∧ db' = db := by
  rw [outcome_execute]
  rcases statement db with g | ⟨a, db₁⟩
  · simp [eq_comm]
  · simp

/-! ## Databases that are left -/

/-- Whatever is answered, the database is left as it was, or as `R` allows. -/
def Allows (R : Database → Database → Prop) (x : Session α) : Prop :=
  ∀ db, x.after db = db ∨ R db (x.after db)

/-- Whatever is answered, the database is left as it was. -/
def Reading (x : Session α) : Prop :=
  ∀ db, x.after db = db

theorem Reading.allows {x : Session α} (reading : x.Reading) : x.Allows R :=
  fun db => .inl (reading db)

theorem reading_pure (a : α) : Reading (pure a) := fun _ => rfl

theorem reading_throw (f : StoreFault) : Reading (throw f : Session α) := fun _ => rfl

theorem reading_mapped (r : Except Fault α) : Reading (mapped r) := by
  intro db
  rw [after, outcome_mapped]

theorem reading_ask (question : Database → Except DatabaseFault α) : Reading (ask question) := by
  intro db
  rw [after, outcome_ask]

theorem Reading.bind {x : Session α} {next : α → Session β} (first : x.Reading)
    (rest : ∀ a, (next a).Reading) : Reading (x >>= next) := by
  intro db
  have kept := first db
  rw [after] at kept ⊢
  rw [outcome_bind]
  rcases same : outcome x db with ⟨_ | a, db₁⟩
  · simpa [same] using kept
  · obtain rfl : db₁ = db := by simpa [same] using kept
    exact rest a db₁

theorem Reading.refuse {p : Prop} [Decidable p] {fault : StoreFault} {next : PUnit → Session β}
    (rest : (next ⟨⟩).Reading) : Reading (if p then throw fault >>= next else next ⟨⟩) := by
  by_cases refused : p
  · rw [if_pos refused]
    exact (reading_throw fault).bind fun _ => rest
  · rw [if_neg refused]
    exact rest

/-- What follows a check may rely on the answer of the check. -/
theorem Allows.mapped_bind {r : Except Fault α} {next : α → Session β}
    (rest : ∀ a, r = .ok a → (next a).Allows R) : Allows R (mapped r >>= next) := by
  intro db
  rw [after, outcome_bind, outcome_mapped]
  cases checked : r with
  | error f => exact .inl rfl
  | ok a => exact rest a checked db

theorem Allows.bind_reading {x : Session α} {next : α → Session β} (first : x.Allows R)
    (rest : ∀ a, (next a).Reading) : Allows R (x >>= next) := by
  intro db
  have allowed := first db
  rw [after] at allowed ⊢
  rw [outcome_bind]
  rcases answer : outcome x db with ⟨_ | a, db₁⟩
  · simpa [answer] using allowed
  · have kept : (outcome (next a) db₁).2 = db₁ := rest a db₁
    simpa [answer, kept] using allowed

theorem Allows.execute {statement : Database → Except DatabaseFault (α × Database)}
    (change : ∀ db a db', statement db = .ok (a, db') → R db db') : Allows R (execute statement) := by
  intro db
  rw [after, outcome_execute]
  rcases done : statement db with f | ⟨a, db'⟩
  · exact .inl rfl
  · exact .inr (change db a db' done)

end Tabular.Session
