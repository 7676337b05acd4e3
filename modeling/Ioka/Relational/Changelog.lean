import Mathlib.Data.List.Basic

/-! # Logs of changes

A log records, for entities named by keys, what each of them was before a change
and what it is after. It replays to a state if the changes of every entity form a
chain that ends at what the entity is now.
-/

namespace Relational

variable {κ σ : Type*}

structure Change (κ σ : Type*) where
  key : κ
  before : Option σ
  after : σ

/-- Each change starts where the one before it ended. -/
inductive Chain : Option σ → List (Change κ σ) → Option σ → Prop
  | nil (s : Option σ) : Chain s [] s
  | cons {a : Change κ σ} {l : List (Change κ σ)} {t : Option σ} : Chain (some a.after) l t →
      Chain a.before (a :: l) t

theorem Chain.snoc {s t : Option σ} {l : List (Change κ σ)} {a : Change κ σ} (h : Chain s l t)
    (ha : a.before = t) : Chain s (l ++ [a]) (some a.after) := by
  induction h with
  | nil s =>
    subst ha
    exact .cons (.nil _)
  | cons _ ih => exact .cons (ih ha)

theorem Chain.isSome {s t : Option σ} {l : List (Change κ σ)} (h : Chain s l t)
    (hs : s.isSome ∨ l ≠ []) : t.isSome := by
  induction h with
  | nil => exact hs.resolve_right (not_not.mpr rfl)
  | cons _ ih => exact ih (Or.inl rfl)

section Replay

variable [DecidableEq κ]

/-- The changes of one entity. -/
def changesOf (log : List (Change κ σ)) (k : κ) : List (Change κ σ) := log.filter fun a => a.key = k

/-- Every entity has gone from nothing to what it is by the changes logged for it. -/
def Replays (log : List (Change κ σ)) (state : κ → Option σ) : Prop :=
  ∀ k, Chain none (changesOf log k) (state k)

variable {log : List (Change κ σ)} {state state' : κ → Option σ} {a : Change κ σ}

theorem replays_nil : Replays ([] : List (Change κ σ)) fun _ => none := fun _ => .nil none

theorem Replays.congr (h : Replays log state) (hs : ∀ k, state' k = state k) :
    Replays log state' := by
  intro k
  rw [hs]
  exact h k

theorem Replays.isSome (h : Replays log state) (ha : a ∈ log) : (state a.key).isSome := by
  refine (h a.key).isSome (Or.inr ?_)
  apply List.ne_nil_of_mem (a := a)
  simpa [changesOf] using ha

/-- A change of one entity, logged with what the entity was. -/
theorem Replays.snoc (h : Replays log state) (hbefore : a.before = state a.key)
    (hafter : state' a.key = some a.after) (hother : ∀ k, k ≠ a.key → state' k = state k) :
    Replays (log ++ [a]) state' := by
  intro k
  rw [changesOf, List.filter_append]
  by_cases hk : a.key = k
  · subst hk
    have hone : [a].filter (fun b => b.key = a.key) = [a] := by simp
    rw [hone, hafter]
    exact (h a.key).snoc hbefore
  · have hnone : [a].filter (fun b => b.key = k) = [] := by simp [hk]
    rw [hnone, List.append_nil, hother k (Ne.symm hk)]
    exact h k

end Replay

end Relational
