import Mathlib.Data.List.Forall2

/-!
# Checks in sequence

What an accepted computation says about its steps: all of them were accepted.
-/

namespace Tabular.Checks

variable {ε α β : Type}

theorem bind_eq_ok {x : Except ε α} {f : α → Except ε β} {b : β} :
    x >>= f = .ok b ↔ ∃ a, x = .ok a ∧ f a = .ok b := by
  cases x with
  | error e => simp [bind, Except.bind]
  | ok a => simp [bind, Except.bind]

theorem map_eq_ok {x : Except ε α} {f : α → β} {b : β} : f <$> x = .ok b ↔ ∃ a, x = .ok a ∧ f a = b := by
  cases x with
  | error e => simp [Functor.map, Except.map]
  | ok a => simp [Functor.map, Except.map]

@[simp]
theorem mapError_eq_ok {ε' : Type} {x : Except ε α} {f : ε → ε'} {a : α} : x.mapError f = .ok a ↔ x = .ok a := by
  cases x <;> simp [Except.mapError]

/-- What goes on only when nothing is refused. -/
theorem refuse_eq_ok {p : Prop} [Decidable p] {fault : ε} {next : PUnit → Except ε β} {b : β} :
    (if p then throw fault >>= next else next ⟨⟩) = .ok b ↔ ¬ p ∧ next ⟨⟩ = .ok b := by
  by_cases refused : p
  · simp [refused, bind, Except.bind, throw, throwThe, MonadExceptOf.throw]
  · simp [refused]

/-- What goes on when a check is either not needed or passed. -/
theorem unless_eq_ok {p : Prop} [Decidable p] {check : Except ε PUnit} {next : PUnit → Except ε β} {b : β} :
    (if p then next ⟨⟩ else check >>= next) = .ok b ↔ (p ∨ check = .ok ⟨⟩) ∧ next ⟨⟩ = .ok b := by
  by_cases exempt : p
  · simp [exempt]
  · rw [if_neg exempt, bind_eq_ok]
    constructor
    · rintro ⟨⟨⟩, passed, later⟩
      exact ⟨.inr passed, later⟩
    · rintro ⟨passed, later⟩
      exact ⟨⟨⟩, passed.resolve_left exempt, later⟩

/-- A list is accepted with the answers to its members, in their order. -/
theorem mapM_eq_ok {f : α → Except ε β} {xs : List α} {ys : List β} :
    xs.mapM f = .ok ys ↔ List.Forall₂ (fun x y => f x = .ok y) xs ys := by
  induction xs generalizing ys with
  | nil => simp [pure, Except.pure, eq_comm]
  | cons x rest ih =>
    rw [List.mapM_cons, bind_eq_ok, List.forall₂_cons_left_iff]
    constructor
    · rintro ⟨y, accepted, remaining⟩
      obtain ⟨later, others, answer⟩ := bind_eq_ok.mp remaining
      exact ⟨y, later, accepted, ih.mp others, (Except.ok.inj answer).symm⟩
    · rintro ⟨y, later, accepted, others, rfl⟩
      exact ⟨y, accepted, bind_eq_ok.mpr ⟨later, ih.mpr others, rfl⟩⟩

theorem exists_of_mem_right {R : α → β → Prop} {xs : List α} {ys : List β} (related : List.Forall₂ R xs ys) {y : β}
    (member : y ∈ ys) : ∃ x ∈ xs, R x y := by
  induction related with
  | nil => simp at member
  | @cons x _ rest _ first _ ih =>
    rcases List.mem_cons.mp member with rfl | later
    · exact ⟨x, List.mem_cons_self, first⟩
    · obtain ⟨x', known, here⟩ := ih later
      exact ⟨x', List.mem_cons_of_mem x known, here⟩

theorem exists_of_mem_left {R : α → β → Prop} {xs : List α} {ys : List β} (related : List.Forall₂ R xs ys) {x : α}
    (member : x ∈ xs) : ∃ y ∈ ys, R x y :=
  exists_of_mem_right related.flip member

/-- When each element is accepted under a condition of its own, and with one answer. -/
theorem mapM_eq_ok_map {f : α → Except ε β} {p : α → Prop} {g : α → β}
    (each : ∀ x y, f x = .ok y ↔ p x ∧ y = g x) {xs : List α} {ys : List β} :
    xs.mapM f = .ok ys ↔ (∀ x ∈ xs, p x) ∧ ys = xs.map g := by
  simp only [mapM_eq_ok, each]
  induction xs generalizing ys with
  | nil => simp
  | cons x rest ih =>
    rw [List.forall₂_cons_left_iff, List.forall_mem_cons, List.map_cons]
    simp only [ih]
    constructor
    · rintro ⟨_, _, ⟨here, rfl⟩, ⟨others, rfl⟩, rfl⟩
      exact ⟨⟨here, others⟩, rfl⟩
    · rintro ⟨⟨here, others⟩, rfl⟩
      exact ⟨_, _, ⟨here, rfl⟩, ⟨others, rfl⟩, rfl⟩

/-- A list is accepted with answers at the same positions. -/
theorem mapM_eq_ok_getElem? {f : α → Except ε β} {xs : List α} {ys : List β} :
    xs.mapM f = .ok ys ↔
      ys.length = xs.length ∧ ∀ (i : Nat) x y, xs[i]? = some x → ys[i]? = some y → f x = .ok y := by
  rw [mapM_eq_ok, List.forall₂_iff_get]
  constructor
  · rintro ⟨sameLength, each⟩
    refine ⟨sameLength.symm, fun i x y member answer => ?_⟩
    obtain ⟨inside, rfl⟩ := List.getElem?_eq_some_iff.mp member
    obtain ⟨answered, rfl⟩ := List.getElem?_eq_some_iff.mp answer
    exact each i inside answered
  · rintro ⟨sameLength, each⟩
    refine ⟨sameLength.symm, fun i inside answered => ?_⟩
    exact each i xs[i] ys[i] (List.getElem?_eq_getElem inside) (List.getElem?_eq_getElem answered)

/-- Checks that answer with what they accept answer with a whole list. -/
theorem mapM_eq_self {f : α → Except ε α} (keeps : ∀ x y, f x = .ok y → y = x) {xs ys : List α}
    (accepted : xs.mapM f = .ok ys) : ys = xs := by
  have each : List.Forall₂ (fun x y => x = y) xs ys :=
    (mapM_eq_ok.mp accepted).imp fun x y checked => (keeps x y checked).symm
  rw [List.forall₂_eq_eq_eq] at each
  exact each.symm

/-! ## Refusals -/

theorem bind_eq_error {x : Except ε α} {f : α → Except ε β} {fault : ε} :
    x >>= f = .error fault ↔ x = .error fault ∨ ∃ a, x = .ok a ∧ f a = .error fault := by
  cases x with
  | error e => simp [bind, Except.bind]
  | ok a => simp [bind, Except.bind]

theorem map_eq_error {x : Except ε α} {f : α → β} {fault : ε} : f <$> x = .error fault ↔ x = .error fault := by
  cases x with
  | error e => simp [Functor.map, Except.map]
  | ok a => simp [Functor.map, Except.map]

/-- A list is refused for the first of its members that is. -/
theorem mapM_eq_error {f : α → Except ε β} {xs : List α} {fault : ε} :
    xs.mapM f = .error fault ↔
      ∃ before x after, xs = before ++ x :: after ∧ (∀ y ∈ before, ∃ b, f y = .ok b) ∧ f x = .error fault := by
  induction xs with
  | nil => simp [pure, Except.pure]
  | cons x rest ih =>
    rw [List.mapM_cons, bind_eq_error]
    constructor
    · rintro (refused | ⟨b, accepted, later⟩)
      · exact ⟨[], x, rest, rfl, by simp, refused⟩
      · rcases bind_eq_error.mp later with others | ⟨_, _, answer⟩
        · obtain ⟨before, y, after, rfl, passed, refused⟩ := ih.mp others
          exact ⟨x :: before, y, after, rfl, List.forall_mem_cons.mpr ⟨⟨b, accepted⟩, passed⟩, refused⟩
        · cases answer
    · rintro ⟨before, y, after, split, passed, refused⟩
      cases before with
      | nil =>
        obtain ⟨rfl, rfl⟩ := List.cons.inj split
        exact .inl refused
      | cons z others =>
        obtain ⟨rfl, rfl⟩ := List.cons.inj split
        obtain ⟨⟨b, accepted⟩, earlier⟩ := List.forall_mem_cons.mp passed
        exact .inr ⟨b, accepted, bind_eq_error.mpr (.inl (ih.mpr ⟨others, y, after, rfl, earlier, refused⟩))⟩

/-- A list is accepted when each of its members is. -/
theorem exists_mapM_eq_ok {f : α → Except ε β} {xs : List α} (each : ∀ x ∈ xs, ∃ y, f x = .ok y) :
    ∃ ys, xs.mapM f = .ok ys := by
  cases answer : xs.mapM f with
  | ok ys => exact ⟨ys, rfl⟩
  | error fault =>
    obtain ⟨before, x, after, rfl, _, refused⟩ := mapM_eq_error.mp answer
    obtain ⟨y, accepted⟩ := each x (by simp)
    cases refused.symm.trans accepted

private theorem forM_eq_mapM (f : α → Except ε Unit) (xs : List α) : xs.forM f = (fun _ => ()) <$> xs.mapM f := by
  induction xs with
  | nil => rfl
  | cons x rest ih =>
    show (f x >>= fun _ => rest.forM f) = _
    rw [ih, List.mapM_cons]
    cases f x with
    | error fault => rfl
    | ok b => cases rest.mapM f <;> rfl

/-- Checks that answer nothing accept a list when they accept its members. -/
theorem forM_eq_ok {f : α → Except ε Unit} {xs : List α} : xs.forM f = .ok () ↔ ∀ x ∈ xs, f x = .ok () := by
  rw [forM_eq_mapM, map_eq_ok]
  constructor
  · rintro ⟨bs, accepted, _⟩ x member
    obtain ⟨_, _, here⟩ := exists_of_mem_left (mapM_eq_ok.mp accepted) member
    exact here
  · intro each
    refine ⟨xs.map fun _ => (), mapM_eq_ok.mpr ?_, rfl⟩
    rw [List.forall₂_map_right_iff, List.forall₂_same]
    exact each

theorem forM_eq_error {f : α → Except ε Unit} {xs : List α} {fault : ε} :
    xs.forM f = .error fault ↔
      ∃ before x after, xs = before ++ x :: after ∧ (∀ y ∈ before, f y = .ok ()) ∧ f x = .error fault := by
  have answers : ∀ y, (∃ b, f y = .ok b) ↔ f y = .ok () :=
    fun y => ⟨fun ⟨(), accepted⟩ => accepted, fun accepted => ⟨(), accepted⟩⟩
  rw [forM_eq_mapM, map_eq_error, mapM_eq_error]
  simp only [answers]

end Tabular.Checks
