import StaticScript.Category
import Mathlib.Data.List.Forall2

/-!
# Results of checks that succeed

How a check that succeeds comes apart into the checks it was made of.  `Checked.all` and
`Checked.sequence` differ in the category they fail with, but they succeed on the same lists: those
in which every result is a success (`Checked.all_eq_ok`, `Checked.sequence_eq_ok`).
-/

namespace StaticScript.Checked

variable {α β : Type}

@[simp] theorem bind_eq_ok {x : Checked α} {f : α → Checked β} {b : β} :
    (x >>= f) = .ok b ↔ ∃ a, x = .ok a ∧ f a = .ok b := by
  cases x with
  | error c => simp [bind, Except.bind]
  | ok a => simp [bind, Except.bind]

@[simp] theorem map_eq_ok {x : Checked α} {f : α → β} {b : β} :
    Except.map f x = .ok b ↔ ∃ a, x = .ok a ∧ f a = b := by
  cases x <;> simp [Except.map]

@[simp] theorem functor_map_eq_ok {x : Checked α} {f : α → β} {b : β} :
    f <$> x = .ok b ↔ ∃ a, x = .ok a ∧ f a = b := map_eq_ok

@[simp] theorem pure_eq_ok {a b : α} : (pure a : Checked α) = .ok b ↔ a = b := by
  simp [pure, Except.pure]

@[simp] theorem throw_ne_ok {c : Category} {b : α} : (throw c : Checked α) = .ok b ↔ False := by
  simp [throw, throwThe, MonadExceptOf.throw]

/-- A condition that is refused with a category, and what follows it. -/
@[simp] theorem guard_eq_ok {p : Prop} [Decidable p] {c : Category} {f : Unit → Checked α} {a : α} :
    (if p then (throw c : Checked Unit) >>= f else f ()) = .ok a ↔ ¬p ∧ f () = .ok a := by
  split <;> simp_all

theorem ite_error_eq_ok {p : Prop} [Decidable p] {c : Category} {x : Checked α} {a : α} :
    (if p then .error c else x) = .ok a ↔ ¬p ∧ x = .ok a := by
  split <;> simp_all

@[simp] theorem ofOption_eq_ok {c : Category} {o : Option α} {a : α} :
    ofOption c o = .ok a ↔ o = some a := by
  cases o <;> simp [ofOption]

@[simp] theorem both_eq_ok {x : Checked α} {y : Checked β} {p : α × β} :
    both x y = .ok p ↔ x = .ok p.1 ∧ y = .ok p.2 := by
  obtain ⟨a, b⟩ := p
  cases x <;> cases y <;> simp [both]

theorem all_cons (r : Checked α) (rs : List (Checked α)) :
    Checked.all (r :: rs) = (both r (Checked.all rs)).map fun p => p.1 :: p.2 := by
  simp only [Checked.all]
  cases both r (Checked.all rs) <;> rfl

@[simp] theorem all_eq_ok {rs : List (Checked α)} {as : List α} :
    Checked.all rs = .ok as ↔ rs = as.map .ok := by
  induction rs generalizing as with
  | nil => cases as <;> simp [Checked.all]
  | cons r rs ih => cases as <;> simp [all_cons, ih, and_assoc]

@[simp] theorem sequence_eq_ok {rs : List (Checked α)} {as : List α} :
    sequence rs = .ok as ↔ rs = as.map .ok := by
  induction rs generalizing as with
  | nil => cases as <;> simp [sequence]
  | cons r rs ih =>
    cases r with
    | error c => cases as <;> simp [sequence]
    | ok a => cases as <;> simp [sequence, ih, and_comm]

/-- The results of `f` on a list are all successes if `f` succeeds on every item. -/
theorem map_eq_map_ok {f : α → Checked β} {as : List α} {bs : List β} :
    as.map f = bs.map .ok ↔ List.Forall₂ (fun a b => f a = .ok b) as bs := by
  induction as generalizing bs with
  | nil => cases bs <;> simp
  | cons a as ih => cases bs <;> simp [ih]

theorem exists_of_forall₂ {R : α → β → Prop} {as : List α} {bs : List β}
    (h : List.Forall₂ R as bs) {a : α} (ha : a ∈ as) : ∃ b ∈ bs, R a b := by
  induction h with
  | nil => cases ha
  | cons hab _ ih =>
    rcases List.mem_cons.1 ha with rfl | ha
    · exact ⟨_, List.mem_cons_self, hab⟩
    · obtain ⟨b, hb, hr⟩ := ih ha
      exact ⟨b, List.mem_cons_of_mem _ hb, hr⟩

theorem isOk_iff {x : Checked α} : x.isOk = true ↔ ∃ a, x = .ok a := by
  cases x <;> simp [isOk]

end StaticScript.Checked
