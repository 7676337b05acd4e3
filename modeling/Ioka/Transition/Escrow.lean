import Mathlib.Algebra.BigOperators.Group.Finset.Basic
import Mathlib.Algebra.Order.Group.Defs
import Mathlib.Tactic.Abel
import Ioka.Transition.Machine

/-! # Escrow

Deals of account holders, each with a price. A price is put on hold out of its owner's balance,
and is given back or settled from there. A deal may also be closed with no money on hold: it is
waived. What is missing in the accounts is then exactly the price of the waived deals.
-/

namespace Transition

/-- Where the money of a deal is. -/
inductive Stage
  | idle
  | held
  | settled
  | waived
  deriving DecidableEq

/-- The money of the deal has left the balance of its owner. -/
def Stage.charged : Stage → Bool
  | .held | .settled => true
  | .idle | .waived => false

structure Escrow (A D M : Type*) where
  balance : A → M
  deals : Finset D
  owner : D → A
  price : D → M
  stage : D → Stage

namespace Escrow

inductive Act (A D M : Type*)
  | agree (d : D) (a : A) (m : M)
  | hold (d : D)
  | giveBack (d : D)
  | settle (d : D)
  | waive (d : D)

variable {A D M : Type*} [DecidableEq A] [DecidableEq D] [AddCommGroup M]

/-- A new deal of an account holder. -/
def agreed (s : Escrow A D M) (d : D) (a : A) (m : M) : Escrow A D M where
  balance := s.balance
  deals := insert d s.deals
  owner := Function.update s.owner d a
  price := Function.update s.price d m
  stage := Function.update s.stage d .idle

/-- A deal goes to another stage, and its owner gets some money. -/
def moved (s : Escrow A D M) (d : D) (stage : Stage) (m : M) : Escrow A D M :=
  { s with
    balance := Function.update s.balance (s.owner d) (s.balance (s.owner d) + m)
    stage := Function.update s.stage d stage }

variable [LinearOrder M]

def machine : Machine (Escrow A D M) (Act A D M) where
  step s
    | .agree d a m => if d ∈ s.deals then none else some (s.agreed d a m)
    | .hold d =>
      if d ∈ s.deals ∧ s.stage d = .idle ∧ s.price d ≤ s.balance (s.owner d) then
        some (s.moved d .held (-s.price d))
      else none
    | .giveBack d =>
      if d ∈ s.deals ∧ s.stage d = .held then some (s.moved d .idle (s.price d)) else none
    | .settle d => if d ∈ s.deals ∧ s.stage d = .held then some (s.moved d .settled 0) else none
    | .waive d => if d ∈ s.deals ∧ s.stage d = .idle then some (s.moved d .waived 0) else none

/-- What a deal takes from the balance of an account holder. -/
def charge (s : Escrow A D M) (a : A) (d : D) : M :=
  if s.owner d = a ∧ (s.stage d).charged then s.price d else 0

/-- The balance of an account holder with the money of the own deals. -/
def worth (s : Escrow A D M) (a : A) : M := s.balance a + ∑ d ∈ s.deals, s.charge a d

section Worth

variable {s t : Escrow A D M} {a b : A} {d : D} {m : M} {stage : Stage} {x : Act A D M}
  {as : List (Act A D M)} {G : Escrow A D M → Act A D M → Prop}

omit [DecidableEq A] [LinearOrder M] in
theorem sum_eq_add_sub {f g : D → M} {l : Finset D} (hd : d ∈ l)
    (h : ∀ e ∈ l, e ≠ d → g e = f e) : ∑ e ∈ l, g e = ∑ e ∈ l, f e + (g d - f d) := by
  have herase : ∑ e ∈ l.erase d, g e = ∑ e ∈ l.erase d, f e := by
    apply Finset.sum_congr rfl
    intro e he
    obtain ⟨hne, he⟩ := Finset.mem_erase.mp he
    exact h e he hne
  rw [← Finset.add_sum_erase l g hd, ← Finset.add_sum_erase l f hd, herase]
  abel

omit [LinearOrder M] in
theorem worth_agreed (hd : d ∉ s.deals) : (s.agreed d b m).worth a = s.worth a := by
  have hsum : ∑ e ∈ s.deals, (s.agreed d b m).charge a e = ∑ e ∈ s.deals, s.charge a e := by
    apply Finset.sum_congr rfl
    intro e he
    have hne : e ≠ d := by
      rintro rfl
      exact hd he
    simp [charge, agreed, Function.update_of_ne hne]
  have hnew : (s.agreed d b m).charge a d = 0 := by simp [charge, agreed, Stage.charged]
  unfold worth
  rw [show (s.agreed d b m).deals = insert d s.deals from rfl, Finset.sum_insert hd, hnew,
    zero_add, hsum]
  rfl

omit [LinearOrder M] in
theorem worth_moved (hd : d ∈ s.deals)
    (h : m = (if (s.stage d).charged then s.price d else 0) -
      if stage.charged then s.price d else 0) : (s.moved d stage m).worth a = s.worth a := by
  have hsum := sum_eq_add_sub (f := s.charge a) (g := (s.moved d stage m).charge a) hd (by
    intro e _ hne
    simp [charge, moved, Function.update_of_ne hne])
  have hself : (s.moved d stage m).charge a d =
      if s.owner d = a ∧ stage.charged then s.price d else 0 := by
    simp [charge, moved]
  unfold worth
  rw [show (s.moved d stage m).deals = s.deals from rfl, hsum, hself]
  by_cases ha : s.owner d = a
  · subst ha
    simp only [moved, Function.update_self, charge, true_and, h]
    abel
  · simp [moved, charge, ha, Function.update_of_ne (Ne.symm ha)]

theorem worth_of_step (h : machine.step s x = some t) : t.worth a = s.worth a := by
  cases x with
  | agree d b m =>
    simp only [machine, Option.ite_none_left_eq_some, Option.some.injEq] at h
    obtain ⟨hd, rfl⟩ := h
    exact worth_agreed hd
  | hold d =>
    simp only [machine, Option.ite_none_right_eq_some, Option.some.injEq] at h
    obtain ⟨⟨hd, hs, _⟩, rfl⟩ := h
    exact worth_moved hd (by simp [hs, Stage.charged])
  | giveBack d | settle d =>
    simp only [machine, Option.ite_none_right_eq_some, Option.some.injEq] at h
    obtain ⟨⟨hd, hs⟩, rfl⟩ := h
    exact worth_moved hd (by simp [hs, Stage.charged])
  | waive d =>
    simp only [machine, Option.ite_none_right_eq_some, Option.some.injEq] at h
    obtain ⟨⟨hd, hs⟩, rfl⟩ := h
    exact worth_moved hd (by simp [hs, Stage.charged])

/-- No run makes money or loses it. -/
theorem worth_of_run (h : machine.RunWhere G s as t) (a : A) : t.worth a = s.worth a :=
  h.invariant (I := fun u => u.worth a = s.worth a)
    (fun _ _ _ _ hs he => (worth_of_step hs).trans he) rfl

theorem idle_of_run (h : machine.RunWhere G s as t) (hs : ∀ d ∉ s.deals, s.stage d = .idle) :
    ∀ d ∉ t.deals, t.stage d = .idle := by
  refine h.invariant (I := fun u => ∀ d ∉ u.deals, u.stage d = .idle) ?_ hs
  intro u x v _ hstep hu e he
  have hmoved {d : D} {stage : Stage} {m : M} (hd : d ∈ u.deals) (he : e ∉ u.deals) :
      (u.moved d stage m).stage e = .idle := by
    have hne : e ≠ d := by
      rintro rfl
      exact he hd
    simpa [moved, Function.update_of_ne hne] using hu e he
  cases x with
  | agree d b m =>
    simp only [machine, Option.ite_none_left_eq_some, Option.some.injEq] at hstep
    obtain ⟨_, rfl⟩ := hstep
    obtain ⟨hne, he⟩ := not_or.mp (mt Finset.mem_insert.mpr he)
    simpa [agreed, Function.update_of_ne hne] using hu e he
  | hold d | giveBack d | settle d | waive d =>
    simp only [machine, Option.ite_none_right_eq_some, Option.some.injEq] at hstep
    obtain ⟨⟨hd, _⟩, rfl⟩ := hstep
    exact hmoved hd he

end Worth

end Escrow

end Transition
