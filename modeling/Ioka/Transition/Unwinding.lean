import Mathlib.Data.List.Basic
import Ioka.Transition.Program

/-! # Unwinding

A run without some of its processes: their actions are left out, and the others
take the same steps at their places among those that are left. If every step is
related to one of the smaller run, or to none, what the kept processes observe
is the same in both runs as long as a condition holds before each step.
-/

namespace Transition.Program

variable {σ π χ ω : Type*}

section Project

/-- The place of a process among the kept ones. -/
def place (ks : List Bool) (i : ℕ) : ℕ := (ks.take i).count true

variable (keep : π → Bool)

/-- Which of the processes are kept, after an action. -/
def arrived (ks : List Bool) : Action π χ → List Bool
  | .spawn p => ks ++ [keep p]
  | .advance _ _ => ks

/-- An action of a kept process, which has its place among the kept ones. -/
def projectAction (ks : List Bool) : Action π χ → List (Action π χ)
  | .spawn p => if keep p then [.spawn p] else []
  | .advance i x => if ks[i]? = some true then [.advance (place ks i) x] else []

/-- The actions of the kept processes. -/
def project : List Bool → List (Action π χ) → List (Action π χ)
  | _, [] => []
  | ks, a :: as => projectAction keep ks a ++ project (arrived keep ks a) as

end Project

section Kept

variable {keep : π → Bool} {ps : List π} {p p' : π} {i : ℕ}

theorem place_succ (k : Bool) (ks : List Bool) (i : ℕ) :
    place (k :: ks) (i + 1) = if k then place ks i + 1 else place ks i := by
  unfold place
  rw [List.take_succ_cons, List.count_cons]
  cases k <;> simp

theorem getElem?_filter_place (hi : ps[i]? = some p) (hp : keep p = true) :
    (ps.filter keep)[place (ps.map keep) i]? = some p := by
  induction ps generalizing i with
  | nil => cases hi
  | cons q ps ih =>
    cases i with
    | zero =>
      obtain rfl : q = p := Option.some.inj hi
      simp [place, hp]
    | succ i =>
      rw [List.map_cons, place_succ, List.filter_cons]
      split
      · rw [List.getElem?_cons_succ]
        exact ih hi
      · exact ih hi

theorem filter_set_kept (hi : ps[i]? = some p) (hp : keep p = true) (hp' : keep p' = true) :
    (ps.set i p').filter keep = (ps.filter keep).set (place (ps.map keep) i) p' := by
  induction ps generalizing i with
  | nil => cases hi
  | cons q ps ih =>
    cases i with
    | zero =>
      obtain rfl : q = p := Option.some.inj hi
      simp [place, hp, hp']
    | succ i =>
      rw [List.map_cons, place_succ, List.set_cons_succ, List.filter_cons, List.filter_cons, ih hi]
      split
      · rw [List.set_cons_succ]
      · rfl

theorem filter_set_dropped (hi : ps[i]? = some p) (hp : keep p = false) (hp' : keep p' = false) :
    (ps.set i p').filter keep = ps.filter keep := by
  induction ps generalizing i with
  | nil => rfl
  | cons q ps ih =>
    cases i with
    | zero =>
      obtain rfl : q = p := Option.some.inj hi
      simp [hp, hp']
    | succ i =>
      rw [List.set_cons_succ, List.filter_cons, List.filter_cons, ih hi]

end Kept

/-- The unwinding conditions. The invariant `I` holds along runs that `E` admits, and the
relation `R` compares the store with that of the run without the other processes. -/
structure Unwinding (P : Program σ π χ) (keep : π → Bool) (obs : π → ω)
    (I : Config σ π → Prop) (E G : Config σ π → Action π χ → Prop) (R : σ → σ → Prop) : Prop where
  keep_eq {s s' : σ} {p p' : π} {x : χ} : P.advance s p x = some (s', p') → keep p' = keep p
  inv {c c' : Config σ π} {a : Action π χ} : E c a → P.machine.step c a = some c' → I c → I c'
  spawn (c : Config σ π) (p : π) : G c (.spawn p)
  /-- The steps of the other processes leave the relation as it is. -/
  other {c : Config σ π} {i : ℕ} {x : χ} {p p' : π} {s' t : σ} : E c (.advance i x) → I c →
    R c.store t → c.procs[i]? = some p → keep p = false →
    P.advance c.store p x = some (s', p') → G c (.advance i x) ∧ R s' t
  /-- Under the condition a kept process takes the same step in both runs. -/
  own {c : Config σ π} {i : ℕ} {x : χ} {p p' : π} {s' t : σ} : E c (.advance i x) → I c →
    R c.store t → c.procs[i]? = some p → keep p = true →
    P.advance c.store p x = some (s', p') → G c (.advance i x) →
    ∃ t', P.advance t p x = some (t', p') ∧ R s' t'
  /-- Without the condition its step is observed. -/
  parts {c : Config σ π} {i : ℕ} {x : χ} {p p' : π} {s' t : σ} : E c (.advance i x) → I c →
    R c.store t → c.procs[i]? = some p → keep p = true →
    P.advance c.store p x = some (s', p') → ¬ G c (.advance i x) →
    ∀ t' q, P.advance t p x = some (t', q) → obs q ≠ obs p'

namespace Unwinding

variable {P : Program σ π χ} {keep : π → Bool} {obs : π → ω} {I : Config σ π → Prop}
  {E G : Config σ π → Action π χ → Prop} {R : σ → σ → Prop} {c c' : Config σ π}
  {a : Action π χ} {as : List (Action π χ)} {t : σ}

theorem map_keep (U : Unwinding P keep obs I E G R) (hs : P.machine.step c a = some c') :
    c'.procs.map keep = arrived keep (c.procs.map keep) a := by
  cases a with
  | spawn p =>
    obtain ⟨_, rfl⟩ := step_spawn_iff.mp hs
    exact List.map_append
  | advance i x =>
    obtain ⟨p, s', p', hp, ha, rfl⟩ := step_advance_iff.mp hs
    exact map_set_eq hp (U.keep_eq ha)

theorem step (U : Unwinding P keep obs I E G R) (hs : P.machine.step c a = some c')
    (hE : E c a) (hI : I c) (hR : R c.store t) (hG : G c a) :
    ∃ t', R c'.store t' ∧ P.machine.Run ⟨t, c.procs.filter keep⟩
      (projectAction keep (c.procs.map keep) a) ⟨t', c'.procs.filter keep⟩ := by
  cases a with
  | spawn p =>
    obtain ⟨hf, rfl⟩ := step_spawn_iff.mp hs
    refine ⟨t, hR, ?_⟩
    rw [projectAction, List.filter_append]
    by_cases hk : keep p = true
    · rw [if_pos hk, List.filter_cons_of_pos hk, List.filter_nil]
      exact .cons trivial (step_spawn_iff.mpr ⟨hf, rfl⟩) (.nil _)
    · rw [if_neg hk, List.filter_cons_of_neg hk, List.filter_nil, List.append_nil]
      exact .nil _
  | advance i x =>
    obtain ⟨p, s', p', hp, ha, rfl⟩ := step_advance_iff.mp hs
    have hmap : (c.procs.map keep)[i]? = some (keep p) := by
      rw [List.getElem?_map, hp, Option.map_some]
    have hk' := U.keep_eq ha
    rw [projectAction, hmap]
    cases hk : keep p with
    | true =>
      rw [hk] at hk'
      obtain ⟨t', ha', hR'⟩ := U.own hE hI hR hp hk ha hG
      refine ⟨t', hR', .cons trivial (step_advance_iff.mpr ?_) (.nil _)⟩
      exact ⟨p, t', p', getElem?_filter_place hp hk, ha', by rw [filter_set_kept hp hk hk']⟩
    | false =>
      rw [hk] at hk'
      refine ⟨t, (U.other hE hI hR hp hk ha).2, ?_⟩
      rw [filter_set_dropped hp hk hk', if_neg (by simp)]
      exact .nil _

theorem step_parts (U : Unwinding P keep obs I E G R) (hs : P.machine.step c a = some c')
    (hE : E c a) (hI : I c) (hR : R c.store t) (hG : ¬ G c a) {d : Config σ π}
    (hd : P.machine.Run ⟨t, c.procs.filter keep⟩ (projectAction keep (c.procs.map keep) a) d) :
    d.procs.map obs ≠ (c'.procs.filter keep).map obs := by
  cases a with
  | spawn p => exact absurd (U.spawn c p) hG
  | advance i x =>
    obtain ⟨p, s', p', hp, ha, rfl⟩ := step_advance_iff.mp hs
    have hmap : (c.procs.map keep)[i]? = some (keep p) := by
      rw [List.getElem?_map, hp, Option.map_some]
    have hk' := U.keep_eq ha
    rw [projectAction, hmap] at hd
    cases hk : keep p with
    | false => exact absurd (U.other hE hI hR hp hk ha).1 hG
    | true =>
      rw [hk] at hk' hd
      have hplace := getElem?_filter_place hp hk
      have hlt := (List.getElem?_eq_some_iff.mp hplace).1
      cases hd with
      | cons _ hsd hnil =>
        cases hnil
        obtain ⟨q, t', q', hq, hqa, rfl⟩ := step_advance_iff.mp hsd
        obtain rfl : p = q := Option.some.inj (hplace.symm.trans hq)
        intro he
        rw [filter_set_kept hp hk hk'] at he
        have hobs : obs q' = obs p' := by
          simpa [hlt] using congrArg (·[place (c.procs.map keep) i]?) he
        exact U.parts hE hI hR hp hk ha hG t' q' hqa hobs

/-- Leaving out the other processes keeps what the kept ones observe, along a whole run, exactly
if the condition holds before each step. -/
theorem run_iff (U : Unwinding P keep obs I E G R) (h : P.machine.RunWhere E c as c') (hI : I c)
    (hR : R c.store t) :
    (∀ bs cs u, as = bs ++ cs → P.machine.Run c bs u →
      ∃ d, P.machine.Run ⟨t, c.procs.filter keep⟩ (project keep (c.procs.map keep) bs) d ∧
        d.procs.map obs = (u.procs.filter keep).map obs) ↔ P.machine.RunWhere G c as c' := by
  induction h generalizing t with
  | nil c =>
    refine iff_of_true ?_ (.nil c)
    intro bs cs u he hb
    obtain rfl := (List.append_eq_nil_iff.mp he.symm).1
    cases hb
    exact ⟨_, .nil _, rfl⟩
  | @cons c c₁ c' a as hE hs _ ih =>
    have hI₁ := U.inv hE hs hI
    have hkeep := U.map_keep hs
    constructor
    · intro hall
      have hG : G c a := by
        by_contra hG
        obtain ⟨d, hd, hobs⟩ := hall [a] as c₁ rfl (.cons trivial hs (.nil c₁))
        rw [project, project, List.append_nil] at hd
        exact U.step_parts hs hE hI hR hG hd hobs
      obtain ⟨t₁, hR₁, hrun₁⟩ := U.step hs hE hI hR hG
      refine .cons hG hs ((ih hI₁ hR₁).mp ?_)
      rintro bs cs u rfl hb
      obtain ⟨d, hd, hobs⟩ := hall (a :: bs) cs u rfl (.cons trivial hs hb)
      obtain ⟨e, he, hd⟩ := hd.exists_of_append
      obtain rfl := Machine.Run.unique he hrun₁
      rw [← hkeep] at hd
      exact ⟨d, hd, hobs⟩
    · intro hG bs cs u he hb
      cases hG with
      | @cons _ c₂ _ _ _ hG hs' hrest =>
        obtain rfl : c₂ = c₁ := Option.some.inj (hs'.symm.trans hs)
        obtain ⟨t₁, hR₁, hrun₁⟩ := U.step hs hE hI hR hG
        cases hb with
        | nil => exact ⟨_, .nil _, rfl⟩
        | @cons _ c₃ _ b bs _ hsb hb =>
          obtain ⟨rfl, rfl⟩ := List.cons.inj he
          obtain rfl : c₃ = c₂ := Option.some.inj (hsb.symm.trans hs)
          obtain ⟨d, hd, hobs⟩ := (ih hI₁ hR₁).mpr hrest bs cs u rfl hb
          rw [hkeep] at hd
          exact ⟨d, hrun₁.append hd, hobs⟩

end Unwinding

end Transition.Program
