import Mathlib.Data.List.Pairwise
import Mathlib.Algebra.BigOperators.Group.List.Basic
import Mathlib.Tactic.Abel

/-! # Tables with unique columns

A table is a list of rows that agree on none of its unique columns, so a
duplicate key cannot be stored. Insertions and updates go through the
constraint and fail where a database would raise. A column without a value
(SQL `NULL`) clashes with nothing.
-/

namespace Relational

variable {α κ : Type*}

/-- Two rows agree on no unique column. -/
def Distinct (cols : List (α → Option κ)) (a b : α) : Prop :=
  ∀ c ∈ cols, c a = none ∨ c a ≠ c b

instance [DecidableEq κ] (cols : List (α → Option κ)) (a b : α) : Decidable (Distinct cols a b) :=
  inferInstanceAs (Decidable (∀ c ∈ cols, c a = none ∨ c a ≠ c b))

theorem Distinct.symm {cols : List (α → Option κ)} {a b : α} (h : Distinct cols a b) :
    Distinct cols b a := by
  intro c hc
  rcases h c hc with hn | hne
  · by_cases hb : c b = none
    · exact Or.inl hb
    · exact Or.inr (by rw [hn]; exact hb)
  · exact Or.inr hne.symm

/-- Change the rows that satisfy a condition. -/
def amend (p : α → Bool) (f : α → α) (l : List α) : List α :=
  l.map fun a => if p a then f a else a

theorem mem_amend {p : α → Bool} {f : α → α} {l : List α} {b : α} :
    b ∈ amend p f l ↔ (∃ a ∈ l, p a = true ∧ f a = b) ∨ (b ∈ l ∧ p b = false) := by
  simp only [amend, List.mem_map]
  constructor
  · rintro ⟨a, ha, rfl⟩
    by_cases hp : p a = true
    · exact Or.inl ⟨a, ha, hp, by simp [hp]⟩
    · exact Or.inr (by simp [hp, ha])
  · rintro (⟨a, ha, hp, rfl⟩ | ⟨hb, hp⟩)
    · exact ⟨a, ha, by simp [hp]⟩
    · exact ⟨b, hb, by simp [hp]⟩

theorem amend_congr {p : α → Bool} {f g : α → α} {l : List α}
    (h : ∀ a ∈ l, p a = true → f a = g a) : amend p f l = amend p g l := by
  apply List.map_congr_left
  intro a ha
  by_cases hp : p a = true
  · simp [hp, h a ha hp]
  · simp [hp]

theorem map_amend {β : Type*} {p : α → Bool} {f : α → α} {g : α → β} (l : List α)
    (h : ∀ a ∈ l, p a = true → g (f a) = g a) : (amend p f l).map g = l.map g := by
  simp only [amend, List.map_map]
  apply List.map_congr_left
  intro a ha
  by_cases hp : p a = true
  · simp [hp, h a ha hp]
  · simp [hp]

theorem find?_amend {p q : α → Bool} {f : α → α} {l : List α}
    (h : ∀ a ∈ l, p a = true → q a = false ∧ q (f a) = false) :
    (amend p f l).find? q = l.find? q := by
  induction l with
  | nil => rfl
  | cons x l ih =>
    have hl := ih fun a ha => h a (List.mem_cons_of_mem _ ha)
    have hx := h x List.mem_cons_self
    rw [amend] at hl ⊢
    rw [List.map_cons, List.find?_cons, List.find?_cons, hl]
    by_cases hp : p x = true
    · simp [hp, hx hp]
    · simp [hp]

theorem filter_amend {p q : α → Bool} {f : α → α} {l : List α}
    (h : ∀ a ∈ l, p a = true → q a = false ∧ q (f a) = false) :
    (amend p f l).filter q = l.filter q := by
  induction l with
  | nil => rfl
  | cons x l ih =>
    have hl := ih fun a ha => h a (List.mem_cons_of_mem _ ha)
    have hx := h x List.mem_cons_self
    rw [amend] at hl ⊢
    rw [List.map_cons, List.filter_cons, List.filter_cons, hl]
    by_cases hp : p x = true
    · simp [hp, hx hp]
    · simp [hp]

theorem find?_amend_eq_none {p q : α → Bool} {f : α → α} {l : List α}
    (h : ∀ a ∈ l, p a = true → q (f a) = q a) (hn : l.find? q = none) :
    (amend p f l).find? q = none := by
  rw [List.find?_eq_none] at hn ⊢
  intro b hb
  rcases mem_amend.mp hb with ⟨a, ha, hp, rfl⟩ | ⟨hb, _⟩
  · rw [h a ha hp]
    exact hn a ha
  · exact hn b hb

/-- A list of rows without a clash on the unique columns. -/
structure Table (cols : List (α → Option κ)) where
  rows : List α
  unique : rows.Pairwise (Distinct cols)

namespace Table

variable {cols : List (α → Option κ)}

@[ext] theorem ext {t t' : Table cols} (h : t.rows = t'.rows) : t = t' := by
  cases t; cases t'; congr

instance : Membership α (Table cols) := ⟨fun t a => a ∈ t.rows⟩

theorem mem_def {t : Table cols} {a : α} : a ∈ t ↔ a ∈ t.rows := Iff.rfl

/-- The table without rows. -/
def empty : Table cols := ⟨[], List.Pairwise.nil⟩

/-- The first row that satisfies a condition, as a query for one row reads it. -/
def select (t : Table cols) (p : α → Bool) : Option α := t.rows.find? p

/-- The table of the given rows, if they respect the unique columns. -/
def ofRows? [DecidableEq κ] (rows : List α) : Option (Table cols) :=
  if h : rows.Pairwise (Distinct cols) then some ⟨rows, h⟩ else none

def insert? [DecidableEq κ] (t : Table cols) (a : α) : Option (Table cols) :=
  ofRows? (t.rows ++ [a])

def update? [DecidableEq κ] (t : Table cols) (p : α → Bool) (f : α → α) : Option (Table cols) :=
  ofRows? (amend p f t.rows)

section Constraint

variable [DecidableEq κ] {t t' : Table cols} {a : α} {p : α → Bool} {f : α → α}

theorem ofRows?_eq_some {rows : List α} : ofRows? rows = some t ↔ t.rows = rows := by
  unfold ofRows?
  constructor
  · intro h
    split at h
    · cases h; rfl
    · cases h
  · rintro rfl
    rw [dif_pos t.unique]

theorem insert?_eq_some : t.insert? a = some t' ↔ t'.rows = t.rows ++ [a] := ofRows?_eq_some

theorem update?_eq_some : t.update? p f = some t' ↔ t'.rows = amend p f t.rows := ofRows?_eq_some

theorem isSome_insert? : (t.insert? a).isSome ↔ ∀ b ∈ t, Distinct cols b a := by
  unfold insert? ofRows?
  have hp : (t.rows ++ [a]).Pairwise (Distinct cols) ↔ ∀ b ∈ t, Distinct cols b a := by
    simp [List.pairwise_append, t.unique, mem_def]
  split
  · rename_i h; simpa using hp.mp h
  · rename_i h; simpa using fun hb => h (hp.mpr hb)

theorem isSome_update?_of_col (h : ∀ c ∈ cols, ∀ a, c (f a) = c a) : (t.update? p f).isSome := by
  have hc : ∀ c ∈ cols, ∀ a, c (if p a then f a else a) = c a := by
    intro c hc a
    split
    · exact h c hc a
    · rfl
  have hp : (amend p f t.rows).Pairwise (Distinct cols) := by
    rw [amend, List.pairwise_map]
    refine t.unique.imp fun {a b} hab c hcol => ?_
    rw [hc c hcol, hc c hcol]
    exact hab c hcol
  simp [update?, ofRows?, hp]

theorem isSome_update?_of_row (hne : t.rows.Nodup) (hp : ∀ b ∈ t, p b = true → b = a)
    (h : ∀ b ∈ t, p b = false → Distinct cols (f a) b) : (t.update? p f).isSome := by
  have hd : (amend p f t.rows).Pairwise (Distinct cols) := by
    rw [amend, List.pairwise_map]
    refine (t.unique.and hne).imp_of_mem fun {x y} hx hy hxy => ?_
    by_cases hpx : p x = true
    · obtain rfl := hp x hx hpx
      have hpy : p y = false := by
        by_contra hpy
        exact hxy.2 (hp y hy (by simpa using hpy)).symm
      simpa [hpx, hpy] using h y hy hpy
    · by_cases hpy : p y = true
      · obtain rfl := hp y hy hpy
        simpa [hpx, hpy] using (h x hx (by simpa using hpx)).symm
      · simpa [hpx, hpy] using hxy.1
  simp [update?, ofRows?, hd]

end Constraint

section Key

instance : Std.Symm (Distinct cols) := ⟨fun _ _ => Distinct.symm⟩

variable {t : Table cols} {c : α → Option κ} {k : κ} {a b : α}

theorem eq_of_col (hc : c ∈ cols) (ha : a ∈ t) (hb : b ∈ t) (hka : c a = some k)
    (hkb : c b = some k) : a = b := by
  by_contra hne
  rcases t.unique.forall ha hb hne c hc with h | h
  · simp [hka] at h
  · exact h (hka.trans hkb.symm)

theorem nodup (hc : c ∈ cols) (h : ∀ a, c a ≠ none) : t.rows.Nodup := by
  refine t.unique.imp fun {x y} hxy he => ?_
  subst he
  rcases hxy c hc with hn | hn
  · exact h x hn
  · exact hn rfl

end Key

section Select

variable {t : Table cols} {p : α → Bool} {a : α}

theorem mem_of_select (h : t.select p = some a) : a ∈ t ∧ p a = true :=
  ⟨List.mem_of_find?_eq_some h, List.find?_some h⟩

theorem select_eq_none : t.select p = none ↔ ∀ a ∈ t, p a = false := by
  simp [select, List.find?_eq_none, mem_def]

theorem select_eq_some (h : ∀ a ∈ t, ∀ b ∈ t, p a = true → p b = true → a = b) :
    t.select p = some a ↔ a ∈ t ∧ p a = true := by
  constructor
  · exact mem_of_select
  · rintro ⟨ha, hp⟩
    cases hs : t.select p with
    | none => simp [select_eq_none.mp hs a ha] at hp
    | some b =>
      obtain ⟨hb, hpb⟩ := mem_of_select hs
      rw [h a ha b hb hp hpb]

end Select

end Table

section Sum

variable {M : Type*} [AddCommGroup M] {g g' : α → M}

theorem sum_map_eq_of_forall {l : List α} (h : ∀ a ∈ l, g' a = g a) :
    (l.map g').sum = (l.map g).sum := by
  rw [List.map_congr_left h]

theorem sum_map_change {l : List α} {r : α} (hd : l.Nodup) (hr : r ∈ l)
    (h : ∀ a ∈ l, a ≠ r → g' a = g a) :
    (l.map g').sum = (l.map g).sum + (g' r - g r) := by
  induction l with
  | nil => simp at hr
  | cons x l ih =>
    obtain ⟨hx, hd⟩ := List.nodup_cons.mp hd
    rw [List.map_cons, List.map_cons, List.sum_cons, List.sum_cons]
    rcases List.mem_cons.mp hr with rfl | hr
    · have hl : (l.map g').sum = (l.map g).sum := sum_map_eq_of_forall fun a ha =>
        h a (List.mem_cons_of_mem _ ha) (by rintro rfl; exact hx ha)
      rw [hl]; abel
    · have hxr : x ≠ r := by rintro rfl; exact hx hr
      rw [h x List.mem_cons_self hxr, ih hd hr fun a ha => h a (List.mem_cons_of_mem _ ha)]
      abel

/-- Amending one row changes a sum by the difference on that row. -/
theorem sum_map_amend {p : α → Bool} {f : α → α} {l : List α} {r : α} (hd : l.Nodup)
    (hr : r ∈ l) (hp : ∀ a ∈ l, p a = true ↔ a = r) :
    ((amend p f l).map g).sum = (l.map g).sum + (g (f r) - g r) := by
  have hm : (amend p f l).map g = l.map fun a => g (if p a then f a else a) := by
    simp [amend, List.map_map, Function.comp_def]
  rw [hm, sum_map_change (g := g) hd hr, if_pos ((hp r hr).mpr rfl)]
  intro a ha hne
  rw [if_neg fun h => hne ((hp a ha).mp h)]

end Sum

end Relational
