import Mathlib.Logic.Function.Basic
import Mathlib.Data.List.Perm.Basic
import Ioka.Transition.Machine

/-! # Processes over a shared store

A program says how one process advances against the store it shares with the
others. Its machine lets processes arrive at any time and interleaves their
steps in any order; a process that stops advancing models a crash.
-/

namespace Transition

/-- How a process of type `π` advances on a store, given a choice of its environment. -/
structure Program (σ π χ : Type*) where
  fresh : π → Bool
  advance : σ → π → χ → Option (σ × π)

/-- The store and all processes that ever arrived, in order of arrival. -/
structure Config (σ π : Type*) where
  store : σ
  procs : List π

inductive Action (π χ : Type*) where
  | spawn (p : π)
  | advance (i : ℕ) (x : χ)

namespace Program

variable {σ π χ : Type*} (P : Program σ π χ)

/-- The interleavings of the processes of a program. -/
def machine : Machine (Config σ π) (Action π χ) where
  step c
    | .spawn p => if P.fresh p then some { c with procs := c.procs ++ [p] } else none
    | .advance i x => c.procs[i]?.bind fun p =>
        (P.advance c.store p x).map fun r => ⟨r.1, c.procs.set i r.2⟩

/-- No process has arrived yet. -/
def start (s : σ) : Config σ π := ⟨s, []⟩

variable {P} {c c' : Config σ π} {G : Config σ π → Action π χ → Prop} {as : List (Action π χ)}

theorem step_spawn_iff {p : π} : P.machine.step c (.spawn p) = some c' ↔
    P.fresh p = true ∧ c' = ⟨c.store, c.procs ++ [p]⟩ := by
  simp only [machine, Option.ite_none_right_eq_some, Option.some.injEq, eq_comm (a := c')]

theorem step_advance_iff {i : ℕ} {x : χ} : P.machine.step c (.advance i x) = some c' ↔
    ∃ p s' p', c.procs[i]? = some p ∧ P.advance c.store p x = some (s', p') ∧
      c' = ⟨s', c.procs.set i p'⟩ := by
  simp only [machine, Option.bind_eq_some_iff, Option.map_eq_some_iff, Prod.exists]
  constructor
  · rintro ⟨p, hp, s', p', ha, rfl⟩
    exact ⟨p, s', p', hp, ha, rfl⟩
  · rintro ⟨p, s', p', hp, ha, rfl⟩
    exact ⟨p, hp, s', p', ha, rfl⟩

theorem getElem?_concat {ps : List π} {p q : π} {i : ℕ} (h : (ps ++ [p])[i]? = some q) :
    ps[i]? = some q ∨ (i = ps.length ∧ q = p) := by
  rw [List.getElem?_append] at h
  split at h
  · exact Or.inl h
  · obtain ⟨hlt, he⟩ := List.getElem?_eq_some_iff.mp h
    rw [List.length_singleton] at hlt
    exact Or.inr ⟨by omega, he.symm.trans (List.getElem_singleton _)⟩

theorem map_set_eq {β : Type*} {f : π → β} {ps : List π} {p p' : π} {i : ℕ} (hi : ps[i]? = some p)
    (h : f p' = f p) : (ps.set i p').map f = ps.map f := by
  apply List.ext_getElem?
  intro k
  rw [List.getElem?_map, List.getElem?_map]
  by_cases hk : i = k
  · subst hk
    have hlt : i < ps.length := (List.getElem?_eq_some_iff.mp hi).1
    rw [List.getElem?_set_self hlt, hi, Option.map_some, Option.map_some, h]
  · rw [List.getElem?_set_ne hk]

theorem mem_set_of_ne {ps : List π} {p q r : π} {i : ℕ} (hi : ps[i]? = some p) (hq : q ∈ ps)
    (hne : q ≠ p) : q ∈ ps.set i r := by
  obtain ⟨j, hj⟩ := List.mem_iff_getElem?.mp hq
  have hij : i ≠ j := by
    rintro rfl
    exact hne (Option.some.inj (hj.symm.trans hi))
  exact List.mem_iff_getElem?.mpr ⟨j, (List.getElem?_set_ne hij).trans hj⟩

theorem mem_set_self {ps : List π} {p q : π} {i : ℕ} (hi : ps[i]? = some p) : q ∈ ps.set i q :=
  List.mem_of_getElem? (List.getElem?_set_self (List.getElem?_eq_some_iff.mp hi).1)

theorem filterMap_set_perm {β : Type*} {f : π → Option β} {ps : List π} {a : π} (b : π) {i : ℕ}
    (hi : ps[i]? = some a) :
    ((ps.set i b).filterMap f ++ (f a).toList).Perm (ps.filterMap f ++ (f b).toList) := by
  induction ps generalizing i with
  | nil => cases hi
  | cons p ps ih =>
    have hcons (q : π) (qs : List π) : (q :: qs).filterMap f = (f q).toList ++ qs.filterMap f := by
      cases hq : f q <;> simp [hq]
    cases i with
    | zero =>
      obtain rfl : p = a := Option.some.inj hi
      rw [List.set_cons_zero, hcons, hcons, List.append_assoc]
      exact List.perm_append_comm.trans ((List.perm_append_comm.append_right _).trans
        (by rw [List.append_assoc]))
    | succ i =>
      rw [List.set_cons_succ, hcons, hcons, List.append_assoc, List.append_assoc]
      exact List.Perm.append_left _ (ih hi)

theorem getElem?_procs_of_run {i : ℕ} {p : π} (hp : c.procs[i]? = some p)
    (hhalt : ∀ s x, P.advance s p x = none) (h : P.machine.RunWhere G c as c') :
    c'.procs[i]? = some p := by
  refine h.invariant (I := fun c => c.procs[i]? = some p) ?_ hp
  intro c a c' _ hs hp
  cases a with
  | spawn q =>
    obtain ⟨_, rfl⟩ := step_spawn_iff.mp hs
    have hlt : i < c.procs.length := (List.getElem?_eq_some_iff.mp hp).1
    exact (List.getElem?_append_left hlt).trans hp
  | advance j x =>
    obtain ⟨q, s', q', hq, ha, rfl⟩ := step_advance_iff.mp hs
    by_cases hij : j = i
    · subst hij
      obtain rfl : q = p := Option.some.inj (hq.symm.trans hp)
      rw [hhalt] at ha
      cases ha
    · exact (List.getElem?_set_ne hij).trans hp

section Alone

variable (P) in
/-- One process on the store, with no step of another between its own. -/
def alone : Machine (σ × π) χ where
  step s x := P.advance s.1 s.2 x

/-- One process can take all the steps that it can take alone. -/
theorem run_of_alone {i : ℕ} {p : π} {xs : List χ} {t : σ × π} (hp : c.procs[i]? = some p)
    (h : P.alone.Run (c.store, p) xs t) :
    P.machine.Run c (xs.map (.advance i)) ⟨t.1, c.procs.set i t.2⟩ := by
  induction xs generalizing c p with
  | nil =>
    cases h
    obtain ⟨hlt, rfl⟩ := List.getElem?_eq_some_iff.mp hp
    rw [List.set_getElem_self]
    exact .nil c
  | cons x xs ih =>
    cases h with
    | @cons _ u _ _ _ _ ha hrest =>
      have hlt : i < c.procs.length := (List.getElem?_eq_some_iff.mp hp).1
      have hrun := ih (c := ⟨u.1, c.procs.set i u.2⟩) (List.getElem?_set_self hlt) hrest
      rw [List.set_set] at hrun
      exact .cons trivial (step_advance_iff.mpr ⟨p, u.1, u.2, hp, ha, rfl⟩) hrun

theorem run_of_fresh {p : π} {xs : List χ} {t : σ × π} {n : ℕ} (hn : c.procs.length = n)
    (hp : P.fresh p = true) (h : P.alone.Run (c.store, p) xs t) :
    P.machine.Run c (.spawn p :: xs.map (.advance n)) ⟨t.1, c.procs ++ [t.2]⟩ := by
  subst hn
  have hrun := run_of_alone (c := ⟨c.store, c.procs ++ [p]⟩) List.getElem?_concat_length h
  rw [List.set_append_right _ _ (Nat.le_refl _), Nat.sub_self] at hrun
  exact .cons trivial (step_spawn_iff.mpr ⟨hp, rfl⟩) hrun

end Alone

section Invariant

variable {I : σ → Prop} {J : σ → π → Prop}

/-- The store keeps `I` and each process keeps `J`, also while the others advance. -/
def Holds (I : σ → Prop) (J : σ → π → Prop) (c : Config σ π) : Prop :=
  I c.store ∧ ∀ p ∈ c.procs, J c.store p

theorem holds_start {s : σ} (h : I s) : Holds I J (start s : Config σ π) := by
  simp [Holds, start, h]

/-- The invariant rule: an arriving process has `J`; an advance keeps `I`, keeps `J` of the
process that advances, and disturbs the `J` of no other. -/
theorem holds_of_run
    (hspawn : ∀ c p, G c (.spawn p) → P.fresh p = true → I c.store → J c.store p)
    (hstep : ∀ c i x p s' p', G c (.advance i x) → c.procs[i]? = some p →
      P.advance c.store p x = some (s', p') → I c.store → J c.store p →
      I s' ∧ J s' p' ∧ ∀ q ∈ c.procs, J c.store q → J s' q)
    (h : P.machine.RunWhere G c as c') (hc : Holds I J c) : Holds I J c' := by
  refine h.invariant (I := Holds I J) ?_ hc
  rintro c a c' hg hs ⟨hI, hJ⟩
  cases a with
  | spawn p =>
    obtain ⟨hf, rfl⟩ := step_spawn_iff.mp hs
    refine ⟨hI, fun q hq => ?_⟩
    rcases List.mem_append.mp hq with hq | hq
    · exact hJ q hq
    · rw [List.mem_singleton.mp hq]
      exact hspawn c p hg hf hI
  | advance i x =>
    obtain ⟨p, s', p', hp, ha, rfl⟩ := step_advance_iff.mp hs
    obtain ⟨hI', hp', hq'⟩ := hstep c i x p s' p' hg hp ha hI (hJ p (List.mem_of_getElem? hp))
    refine ⟨hI', fun q hq => ?_⟩
    rcases List.mem_or_eq_of_mem_set hq with hq | rfl
    · exact hq' q hq (hJ q hq)
    · exact hp'

end Invariant

/-- Processes of two programs side by side. -/
def sum {π' χ' : Type*} (P : Program σ π χ) (Q : Program σ π' χ') :
    Program σ (π ⊕ π') (χ ⊕ χ') where
  fresh := Sum.elim P.fresh Q.fresh
  advance s
    | .inl p, .inl x => (P.advance s p x).map fun r => (r.1, .inl r.2)
    | .inr q, .inr y => (Q.advance s q y).map fun r => (r.1, .inr r.2)
    | _, _ => none

section Sum

variable {π' χ' : Type*} {Q : Program σ π' χ'} {s s' : σ}

theorem sum_advance {p p' : π ⊕ π'} {x : χ ⊕ χ'} (h : (P.sum Q).advance s p x = some (s', p')) :
    (∃ q q' y, p = .inl q ∧ x = .inl y ∧ p' = .inl q' ∧ P.advance s q y = some (s', q')) ∨
    (∃ q q' y, p = .inr q ∧ x = .inr y ∧ p' = .inr q' ∧ Q.advance s q y = some (s', q')) := by
  rcases p with p | p <;> rcases x with x | x <;>
    simp only [sum, Option.map_eq_some_iff, Prod.mk.injEq, Prod.exists, reduceCtorEq] at h
  · obtain ⟨s₁, q, ha, rfl, rfl⟩ := h
    exact Or.inl ⟨p, q, x, rfl, rfl, rfl, ha⟩
  · obtain ⟨s₁, q, ha, rfl, rfl⟩ := h
    exact Or.inr ⟨p, q, x, rfl, rfl, rfl, ha⟩

theorem alone_inl {p : π} {xs : List χ} {t : σ × π} (h : P.alone.Run (s, p) xs t) :
    (P.sum Q).alone.Run (s, .inl p) (xs.map .inl) (t.1, .inl t.2) := by
  refine h.map (f := fun u : σ × π => (u.1, (.inl u.2 : π ⊕ π'))) ?_
  intro u x v hs
  exact Option.map_eq_some_iff.mpr ⟨v, hs, rfl⟩

theorem alone_inr {q : π'} {ys : List χ'} {t : σ × π'} (h : Q.alone.Run (s, q) ys t) :
    (P.sum Q).alone.Run (s, .inr q) (ys.map .inr) (t.1, .inr t.2) := by
  refine h.map (f := fun u : σ × π' => (u.1, (.inr u.2 : π ⊕ π'))) ?_
  intro u y v hs
  exact Option.map_eq_some_iff.mpr ⟨v, hs, rfl⟩

end Sum

section Within

variable {τ : Type*} {get : τ → σ} {put : τ → σ → τ} {t t' : τ} {p p' : π} {x : χ}

/-- A program that works on one part of a larger store. -/
def within (P : Program σ π χ) (get : τ → σ) (put : τ → σ → τ) : Program τ π χ where
  fresh := P.fresh
  advance t p x := (P.advance (get t) p x).map fun r => (put t r.1, r.2)

theorem within_advance : (P.within get put).advance t p x = some (t', p') ↔
    ∃ s, P.advance (get t) p x = some (s, p') ∧ t' = put t s := by
  simp only [within, Option.map_eq_some_iff, Prod.mk.injEq, Prod.exists]
  constructor
  · rintro ⟨s, q, ha, rfl, rfl⟩
    exact ⟨s, ha, rfl⟩
  · rintro ⟨s, ha, rfl⟩
    exact ⟨s, p', ha, rfl, rfl⟩

theorem alone_within {xs : List χ} {u : σ × π} (hget : ∀ t s, get (put t s) = s)
    (hput : ∀ t s s', put (put t s) s' = put t s') (hself : put t (get t) = t)
    (h : P.alone.Run (get t, p) xs u) :
    (P.within get put).alone.Run (t, p) xs (put t u.1, u.2) := by
  have hrun : (P.within get put).alone.Run (put t (get t), p) (xs.map id) (put t u.1, u.2) := by
    refine h.map (f := fun v : σ × π => (put t v.1, v.2)) ?_
    intro v x v' hs
    exact within_advance.mpr ⟨v'.1, by rwa [hget], (hput t v.1 v'.1).symm⟩
  rwa [hself, List.map_id] at hrun

end Within

section Recording

variable {ω : Type*} {obs : σ → π → σ → π → List ω} {s s' : σ} {p p' : π × List ω} {x : χ}

/-- A program whose processes also write down what is observed of their own steps. -/
def recording (P : Program σ π χ) (obs : σ → π → σ → π → List ω) :
    Program σ (π × List ω) χ where
  fresh p := P.fresh p.1 && p.2.isEmpty
  advance s p x := (P.advance s p.1 x).map fun r => (r.1, (r.2, p.2 ++ obs s p.1 r.1 r.2))

theorem recording_fresh : (P.recording obs).fresh p = true ↔ P.fresh p.1 = true ∧ p.2 = [] := by
  simp [recording]

theorem recording_advance : (P.recording obs).advance s p x = some (s', p') ↔
    ∃ q, P.advance s p.1 x = some (s', q) ∧ p' = (q, p.2 ++ obs s p.1 s' q) := by
  simp only [recording, Option.map_eq_some_iff, Prod.mk.injEq, Prod.exists]
  constructor
  · rintro ⟨t, q, ha, rfl, rfl⟩
    exact ⟨q, ha, rfl⟩
  · rintro ⟨q, ha, rfl⟩
    exact ⟨s', q, ha, rfl, rfl⟩

end Recording

end Program

end Transition
