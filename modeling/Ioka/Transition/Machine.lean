import Mathlib.Data.Option.Basic
import Mathlib.Data.List.Basic

/-! # Machines and guarded runs

A machine says what each action does to a state, where the action is enabled.
A run is a list of actions taken one after another; a guarded run takes each
action in a state where the guard admits it, so a theorem about guarded runs
speaks of every schedule that respects an assumption at every step.
-/

namespace Transition

/-- What an action does to a state, where it is enabled. -/
structure Machine (σ α : Type*) where
  step : σ → α → Option σ

namespace Machine

variable {σ α : Type*} (M : Machine σ α)

/-- The actions of a list, taken in order, each where the guard admits it. -/
inductive RunWhere (G : σ → α → Prop) : σ → List α → σ → Prop
  | nil (s : σ) : RunWhere G s [] s
  | cons {s t u : σ} {a : α} {as : List α} : G s a → M.step s a = some t →
      RunWhere G t as u → RunWhere G s (a :: as) u

/-- A run under no assumption. -/
abbrev Run : σ → List α → σ → Prop := M.RunWhere fun _ _ => True

variable {M} {G G' : σ → α → Prop} {s t u : σ} {as bs : List α}

theorem RunWhere.mono (hG : ∀ s a, G s a → G' s a) (h : M.RunWhere G s as t) :
    M.RunWhere G' s as t := by
  induction h with
  | nil s => exact .nil s
  | cons hg hs _ ih => exact .cons (hG _ _ hg) hs ih

theorem RunWhere.mono_of_mem (hG : ∀ s a, G s a → a ∈ as → G' s a) (h : M.RunWhere G s as t) :
    M.RunWhere G' s as t := by
  induction h with
  | nil s => exact .nil s
  | @cons s t u a as hg hs _ ih =>
    refine .cons (hG _ _ hg (List.mem_cons_self ..)) hs (ih ?_)
    intro s b hb hmem
    exact hG s b hb (List.mem_cons_of_mem a hmem)

/-- A run takes an action of `L`, before which it is a run as well, or keeps away from `L`. -/
theorem RunWhere.or_exists (L : σ → α → Prop) (h : M.RunWhere G s as t) :
    M.RunWhere (fun s a => G s a ∧ ¬ L s a) s as t ∨
      ∃ bs a cs u, as = bs ++ a :: cs ∧ M.RunWhere G s bs u ∧ L u a := by
  induction h with
  | nil s => exact Or.inl (.nil s)
  | @cons s t u a as hg hs _ ih =>
    by_cases hl : L s a
    · exact Or.inr ⟨[], a, as, s, rfl, .nil s, hl⟩
    · rcases ih with ih | ⟨bs, b, cs, v, rfl, hrun, hb⟩
      · exact Or.inl (.cons ⟨hg, hl⟩ hs ih)
      · exact Or.inr ⟨a :: bs, b, cs, v, rfl, .cons hg hs hrun, hb⟩

theorem Run.map {τ β : Type*} {N : Machine τ β} {f : σ → τ} {g : α → β}
    (hstep : ∀ s a t, M.step s a = some t → N.step (f s) (g a) = some (f t)) (h : M.Run s as t) :
    N.Run (f s) (as.map g) (f t) := by
  induction h with
  | nil s => exact .nil (f s)
  | cons _ hs _ ih => exact .cons trivial (hstep _ _ _ hs) ih

theorem RunWhere.run (h : M.RunWhere G s as t) : M.Run s as t := h.mono fun _ _ _ => trivial

theorem RunWhere.append (h : M.RunWhere G s as t) (h' : M.RunWhere G t bs u) :
    M.RunWhere G s (as ++ bs) u := by
  induction h with
  | nil s => exact h'
  | cons hg hs _ ih => exact .cons hg hs (ih h')

theorem RunWhere.exists_of_append (h : M.RunWhere G s (as ++ bs) u) :
    ∃ t, M.RunWhere G s as t ∧ M.RunWhere G t bs u := by
  induction as generalizing s with
  | nil => exact ⟨s, .nil s, h⟩
  | cons a as ih =>
    cases h with
    | cons hg hs h =>
      obtain ⟨t, hst, htu⟩ := ih h
      exact ⟨t, .cons hg hs hst, htu⟩

/-- What every step of a run preserves holds at its end. -/
theorem RunWhere.invariant {I : σ → Prop}
    (hstep : ∀ s a t, G s a → M.step s a = some t → I s → I t)
    (h : M.RunWhere G s as t) (hs : I s) : I t := by
  induction h with
  | nil s => exact hs
  | cons hg hst _ ih => exact ih (hstep _ _ _ hg hst hs)

/-- Two states of a run are related by a preorder that relates the ends of every step. -/
theorem RunWhere.relates {R : σ → σ → Prop} (hrefl : ∀ s, R s s)
    (htrans : ∀ s t u, R s t → R t u → R s u)
    (hstep : ∀ s a t, G s a → M.step s a = some t → R s t)
    (h : M.RunWhere G s as t) : R s t := by
  induction h with
  | nil s => exact hrefl s
  | cons hg hst _ ih => exact htrans _ _ _ (hstep _ _ _ hg hst) ih

/-- What every step of a run preserves, where it may speak of the actions taken so far. -/
theorem RunWhere.trace {I : List α → σ → Prop}
    (hstep : ∀ as s a t, G s a → M.step s a = some t → I as s → I (as ++ [a]) t)
    (h : M.RunWhere G s as t) (hs : I [] s) : I as t := by
  have hpre : ∀ bs, I bs s → I (bs ++ as) t := by
    clear hs
    induction h with
    | nil s =>
      intro bs hs
      rwa [List.append_nil]
    | @cons s t u a as hg hst _ ih =>
      intro bs hs
      have ht := ih (bs ++ [a]) (hstep bs s a t hg hst hs)
      rwa [List.append_assoc] at ht
  exact hpre [] hs

/-- Where a step keeps a property exactly if the guard admits it, a property that holds at the
start of a run holds in all its states exactly if the guard admits every step. -/
theorem Run.always_iff {I K : σ → Prop}
    (hK : ∀ s a t, M.step s a = some t → K s → K t)
    (hstep : ∀ s a t, M.step s a = some t → K s → I s → (I t ↔ G s a))
    (h : M.Run s as t) (hs : K s) (hI : I s) :
    (∀ bs cs u, as = bs ++ cs → M.Run s bs u → I u) ↔ M.RunWhere G s as t := by
  induction h with
  | nil s =>
    refine iff_of_true ?_ (.nil s)
    intro bs cs u he hb
    obtain rfl := (List.append_eq_nil_iff.mp he.symm).1
    cases hb
    exact hI
  | @cons s t u a as _ hst hrun ih =>
    have ht := hK s a t hst hs
    constructor
    · intro hall
      have hIt : I t := hall [a] as t rfl (.cons trivial hst (.nil t))
      refine .cons ((hstep s a t hst hs hI).mp hIt) hst ((ih ht hIt).mp ?_)
      rintro bs cs v rfl hb
      exact hall (a :: bs) cs v rfl (.cons trivial hst hb)
    · intro hG bs cs v he hb
      cases hG with
      | @cons _ t' _ _ _ hg hst' hrest =>
        obtain rfl : t' = t := Option.some.inj (hst'.symm.trans hst)
        cases hb with
        | nil => exact hI
        | @cons _ t'' _ b bs _ hsb hb =>
          obtain ⟨rfl, rfl⟩ := List.cons.inj he
          obtain rfl : t'' = t' := Option.some.inj (hsb.symm.trans hst)
          exact (ih ht ((hstep s _ _ hst hs hI).mpr hg)).mpr hrest bs cs v rfl hb

variable (M) in
/-- Run a list of actions. -/
def exec : σ → List α → Option σ
  | s, [] => some s
  | s, a :: as => (M.step s a).bind fun t => exec t as

theorem exec_eq_some_iff : M.exec s as = some t ↔ M.Run s as t := by
  induction as generalizing s with
  | nil =>
    constructor
    · intro h; cases h; exact .nil _
    · intro h; cases h; rfl
  | cons a as ih =>
    rw [exec, Option.bind_eq_some_iff]
    constructor
    · rintro ⟨u, hs, hu⟩
      exact .cons trivial hs (ih.mp hu)
    · intro h
      cases h with
      | cons _ hs hu => exact ⟨_, hs, ih.mpr hu⟩

theorem Run.unique (h : M.Run s as t) (h' : M.Run s as u) : t = u :=
  Option.some.inj ((exec_eq_some_iff.mpr h).symm.trans (exec_eq_some_iff.mpr h'))

/-- Some step of the actions goes from a state to one that is related to it. -/
def Passes (M : Machine σ α) (R : σ → σ → Prop) (s : σ) (as : List α) : Prop :=
  ∃ bs a cs t u, as = bs ++ a :: cs ∧ M.Run s bs t ∧ M.step t a = some u ∧ R t u

theorem not_passes_nil {R : σ → σ → Prop} : ¬ M.Passes R s [] := by
  rintro ⟨bs, a, cs, _, _, he, _⟩
  exact List.append_ne_nil_of_right_ne_nil bs (List.cons_ne_nil a cs) he.symm

theorem Run.passes_concat {R : σ → σ → Prop} {a : α} (h : M.Run s as t)
    (hs : M.step t a = some u) : M.Passes R s (as ++ [a]) ↔ M.Passes R s as ∨ R t u := by
  constructor
  · rintro ⟨bs, b, cs, t', u', he, hrun, hb, hR⟩
    rcases cs.eq_nil_or_concat with rfl | ⟨cs, x, rfl⟩
    · obtain ⟨rfl, hab⟩ := List.append_inj' he rfl
      obtain rfl := List.singleton_inj.mp hab
      obtain rfl := h.unique hrun
      obtain rfl := Option.some.inj (hs.symm.trans hb)
      exact Or.inr hR
    · rw [List.concat_eq_append, ← List.cons_append, ← List.append_assoc] at he
      exact Or.inl ⟨bs, b, cs, t', u', (List.append_inj' he rfl).1, hrun, hb, hR⟩
  · rintro (⟨bs, b, cs, t', u', rfl, hrun, hb, hR⟩ | hR)
    · exact ⟨bs, b, cs ++ [a], t', u', by simp, hrun, hb, hR⟩
    · exact ⟨as, a, [], t, u, rfl, h, hs, hR⟩

section Guard

variable (M) (G) [∀ s a, Decidable (G s a)]

/-- Run a list of actions, checking the guard before each of them. -/
def execWhere : σ → List α → Option σ
  | s, [] => some s
  | s, a :: as => if G s a then (M.step s a).bind fun t => execWhere t as else none

variable {M} {G}

theorem runWhere_of_execWhere (h : M.execWhere G s as = some t) : M.RunWhere G s as t := by
  induction as generalizing s with
  | nil => cases h; exact .nil _
  | cons a as ih =>
    rw [execWhere] at h
    split at h
    · rename_i hg
      obtain ⟨u, hs, hu⟩ := Option.bind_eq_some_iff.mp h
      exact .cons hg hs (ih hu)
    · cases h

end Guard

end Machine

end Transition
