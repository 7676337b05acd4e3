import Mathlib.Data.Finset.Max

/-! # Waiting for resources

Parties hold resources and want at most one more each. Where every party wants a
resource of higher rank than all it holds, no set of parties is deadlocked.
-/

namespace Transition

/-- What each party holds, and what it wants next. -/
structure Claims (ι ρ : Type*) where
  holds : ι → Set ρ
  wants : ι → Option ρ

namespace Claims

variable {ι ρ : Type*} (K : Claims ι ρ)

/-- The party wants a resource that another one holds. -/
def Waits (i j : ι) : Prop := i ≠ j ∧ ∃ r, K.wants i = some r ∧ r ∈ K.holds j

/-- Every party of the set waits for one of the set. -/
def Deadlocked (S : Finset ι) : Prop := S.Nonempty ∧ ∀ i ∈ S, ∃ j ∈ S, K.Waits i j

/-- Resources are claimed in the order of their ranks. -/
def Ranked (rank : ρ → ℕ) : Prop :=
  ∀ i r, K.wants i = some r → ∀ s ∈ K.holds i, rank s < rank r

variable {K} {rank : ρ → ℕ}

theorem Ranked.not_deadlocked (h : K.Ranked rank) (S : Finset ι) : ¬ K.Deadlocked S := by
  rintro ⟨hne, hw⟩
  -- A party whose wanted resource has the highest rank waits for one that wants a higher one.
  obtain ⟨i, hi, hmax⟩ := S.exists_max_image (fun i => ((K.wants i).map rank).getD 0) hne
  obtain ⟨j, hj, _, r, hr, hrj⟩ := hw i hi
  obtain ⟨_, _, _, s, hs, _⟩ := hw j hj
  have hle := hmax j hj
  simp only [hr, hs, Option.map_some, Option.getD_some] at hle
  exact absurd (h j s hs r hrj) (Nat.not_lt.mpr hle)

end Claims

end Transition
