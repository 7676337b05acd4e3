import Ioka.Transition.Program

/-! # Simulations

A machine is simulated by another one along a relation of their states if each of its
steps is matched by some steps of the other. Runs are matched then. Two programs whose
processes are the same have machines that simulate each other if their advances match.
-/

namespace Transition

variable {σ τ π α β χ ψ : Type*}

namespace Machine

variable {M : Machine σ α} {N : Machine τ β} {G : σ → α → Prop} {H : τ → β → Prop}
  {R : σ → τ → Prop} {s s' : σ} {t : τ} {as : List α}

/-- Each guarded step of `M` from related states is matched by a guarded run of `N`. -/
def Simulates (M : Machine σ α) (G : σ → α → Prop) (N : Machine τ β) (H : τ → β → Prop)
    (R : σ → τ → Prop) : Prop :=
  ∀ s a s' t, R s t → G s a → M.step s a = some s' →
    ∃ bs t', N.RunWhere H t bs t' ∧ R s' t'

/-- A guarded run is matched by a guarded run of the simulating machine. -/
theorem Simulates.run (hsim : M.Simulates G N H R) (h : M.RunWhere G s as s') (hR : R s t) :
    ∃ bs t', N.RunWhere H t bs t' ∧ R s' t' := by
  induction h generalizing t with
  | nil s => exact ⟨[], t, .nil t, hR⟩
  | cons hg hs _ ih =>
    obtain ⟨bs, u, hrun, hu⟩ := hsim _ _ _ _ hR hg hs
    obtain ⟨cs, t', hrest, ht⟩ := ih hu
    exact ⟨bs ++ cs, t', hrun.append hrest, ht⟩

end Machine

/-- The same arrival, or advances of one process by related choices. -/
inductive Action.Rel (S : χ → ψ → Prop) : Action π χ → Action π ψ → Prop
  | spawn (p : π) : Rel S (.spawn p) (.spawn p)
  | advance {x : χ} {y : ψ} (i : ℕ) : S x y → Rel S (.advance i x) (.advance i y)

theorem Action.Rel.swap {S : χ → ψ → Prop} {a : Action π χ} {b : Action π ψ}
    (h : Rel (Function.swap S) b a) : Rel S a b := by
  cases h with
  | spawn p => exact .spawn p
  | advance i hxy => exact .advance i hxy

/-- The same processes over related stores. -/
structure Config.Rel (R : σ → τ → Prop) (c : Config σ π) (e : Config τ π) : Prop where
  store : R c.store e.store
  procs : e.procs = c.procs

namespace Program

variable {P : Program σ π χ} {Q : Program τ π ψ} {R : σ → τ → Prop} {S : χ → ψ → Prop}

/-- Each advance of `P` from related stores is matched by an advance of `Q`. -/
structure Matches (P : Program σ π χ) (Q : Program τ π ψ) (R : σ → τ → Prop) (S : χ → ψ → Prop) :
    Prop where
  fresh : ∀ p, P.fresh p = true → Q.fresh p = true
  advance : ∀ s t p x s' p', R s t → P.advance s p x = some (s', p') →
    ∃ y t', S x y ∧ Q.advance t p y = some (t', p') ∧ R s' t'

namespace Matches

theorem simulates {G : Config σ π → Action π χ → Prop} {H : Config τ π → Action π ψ → Prop}
    (h : P.Matches Q R S)
    (hG : ∀ c e a b, Config.Rel R c e → Action.Rel S a b → G c a → H e b) :
    P.machine.Simulates G Q.machine H (Config.Rel R) := by
  rintro c a c' e hR hg hs
  cases a with
  | spawn p =>
    obtain ⟨hp, rfl⟩ := step_spawn_iff.mp hs
    have hstep : Q.machine.step e (.spawn p) = some ⟨e.store, e.procs ++ [p]⟩ :=
      step_spawn_iff.mpr ⟨h.fresh p hp, rfl⟩
    exact ⟨_, _, .cons (hG c e _ _ hR (.spawn p) hg) hstep (.nil _), hR.store, by rw [hR.procs]⟩
  | advance i x =>
    obtain ⟨p, s', p', hi, ha, rfl⟩ := step_advance_iff.mp hs
    obtain ⟨y, t', hxy, hb, hR'⟩ := h.advance _ _ _ _ _ _ hR.store ha
    have hstep : Q.machine.step e (.advance i y) = some ⟨t', e.procs.set i p'⟩ :=
      step_advance_iff.mpr ⟨p, t', p', by rw [hR.procs, hi], hb, rfl⟩
    exact ⟨_, _, .cons (hG c e _ _ hR (.advance i hxy) hg) hstep (.nil _), hR', by rw [hR.procs]⟩

theorem sum {π' χ' ψ' : Type*} {P' : Program σ π' χ'} {Q' : Program τ π' ψ'} {S' : χ' → ψ' → Prop}
    {U : χ ⊕ χ' → ψ ⊕ ψ' → Prop} (h : P.Matches Q R S) (h' : P'.Matches Q' R S')
    (hS : ∀ x y, S x y → U (.inl x) (.inl y)) (hS' : ∀ x y, S' x y → U (.inr x) (.inr y)) :
    (P.sum P').Matches (Q.sum Q') R U := by
  constructor
  · rintro (p | p) hp
    · exact h.fresh p hp
    · exact h'.fresh p hp
  · intro s t p x s' p' hR ha
    rcases sum_advance ha with ⟨q, q', z, rfl, rfl, rfl, hq⟩ | ⟨q, q', z, rfl, rfl, rfl, hq⟩
    · obtain ⟨y, t', hxy, hb, hR'⟩ := h.advance _ _ _ _ _ _ hR hq
      exact ⟨.inl y, t', hS z y hxy, Option.map_eq_some_iff.mpr ⟨_, hb, rfl⟩, hR'⟩
    · obtain ⟨y, t', hxy, hb, hR'⟩ := h'.advance _ _ _ _ _ _ hR hq
      exact ⟨.inr y, t', hS' z y hxy, Option.map_eq_some_iff.mpr ⟨_, hb, rfl⟩, hR'⟩

theorem within {ρ : Type*} {P : Program ρ π χ} {get : σ → ρ} {put : σ → ρ → σ} {get' : τ → ρ}
    {put' : τ → ρ → τ} (hget : ∀ s t, R s t → get' t = get s)
    (hput : ∀ s t r, R s t → R (put s r) (put' t r)) :
    (P.within get put).Matches (P.within get' put') R Eq := by
  constructor
  · intro p hp
    exact hp
  · intro s t p x s' p' hR ha
    obtain ⟨r, hr, rfl⟩ := within_advance.mp ha
    exact ⟨x, put' t r, rfl, within_advance.mpr ⟨r, by rw [hget s t hR, hr], rfl⟩, hput s t r hR⟩

end Matches

end Program

end Transition
