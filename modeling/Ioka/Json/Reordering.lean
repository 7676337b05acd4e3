import Ioka.Json.Injective

/-! # Canonical texts and the order of members

Two values are the same up to the order of members if at every depth the members of
one are a reordering of the other's. Sorting the keys brings such values to one
form, and different values to different ones.
-/

namespace Json

mutual

/-- Equality up to the order of the members in every nested object. -/
def Same : Json → Json → Prop
  | .null, .null => True
  | .bool a, .bool b => a = b
  | .int m, .int n => m = n
  | .str s, .str t => s = t
  | .arr xs, .arr ys => SameAll xs ys
  | .obj kvs, .obj lws => ∃ lws', lws'.Perm lws ∧ SameMembers kvs lws'
  | _, _ => False

def SameAll : List Json → List Json → Prop
  | [], [] => True
  | x :: xs, y :: ys => Same x y ∧ SameAll xs ys
  | _, _ => False

def SameMembers : List (String × Json) → List (String × Json) → Prop
  | [], [] => True
  | (k, x) :: kvs, (l, y) :: lws => k = l ∧ Same x y ∧ SameMembers kvs lws
  | _, _ => False

end

mutual

/-- No object has two members with one key. -/
def distinctKeys : Json → Bool
  | .arr xs => distinctAll xs
  | .obj kvs => (kvs.map (·.1)).Nodup && distinctMembers kvs
  | _ => true

def distinctAll : List Json → Bool
  | [] => true
  | x :: xs => distinctKeys x && distinctAll xs

def distinctMembers : List (String × Json) → Bool
  | [] => true
  | (_, x) :: kvs => distinctKeys x && distinctMembers kvs

end

section Lists

theorem sameAll_iff {xs ys : List Json} : SameAll xs ys ↔ List.Forall₂ Same xs ys := by
  induction xs generalizing ys with
  | nil => cases ys <;> simp [SameAll]
  | cons x xs ih => cases ys <;> simp [SameAll, ih]

theorem sameMembers_iff {kvs lws : List (String × Json)} : SameMembers kvs lws ↔
    List.Forall₂ (fun x y => x.1 = y.1 ∧ Same x.2 y.2) kvs lws := by
  induction kvs generalizing lws with
  | nil => cases lws <;> simp [SameMembers]
  | cons kv kvs ih => cases lws <;> simp [SameMembers, ih, and_assoc]

theorem distinctAll_iff {xs : List Json} :
    distinctAll xs = true ↔ ∀ x ∈ xs, x.distinctKeys = true := by
  induction xs with
  | nil => simp [distinctAll]
  | cons x xs ih => simp [distinctAll, ih]

theorem distinctMembers_iff {kvs : List (String × Json)} :
    distinctMembers kvs = true ↔ ∀ kv ∈ kvs, kv.2.distinctKeys = true := by
  induction kvs with
  | nil => simp [distinctMembers]
  | cons kv kvs ih => simp [distinctMembers, ih]

def sortMember (kv : String × Json) : String × Json := (kv.1, kv.2.sortKeys)

theorem sortAll_eq_map (xs : List Json) : sortAll xs = xs.map sortKeys := by
  induction xs with
  | nil => rfl
  | cons x xs ih => simp [sortAll, ih]

theorem sortMembers_eq_map (kvs : List (String × Json)) :
    sortMembers kvs = kvs.map sortMember := by
  induction kvs with
  | nil => rfl
  | cons kv kvs ih => simp [sortMembers, sortMember, ih]

theorem forall₂_of_map_eq {α β : Type*} {f : α → β} {P : α → α → Prop} {l m : List α}
    (h : l.map f = m.map f) (hP : ∀ a ∈ l, ∀ b, f a = f b → P a b) : List.Forall₂ P l m := by
  induction l generalizing m with
  | nil =>
    rw [List.map_eq_nil_iff.mp h.symm]
    exact .nil
  | cons a l ih =>
    obtain ⟨b, m', rfl, hab, hm⟩ := List.map_eq_cons_iff.mp h.symm
    exact .cons (hP a (by simp) b hab.symm) (ih hm.symm fun c hc => hP c (by simp [hc]))

theorem map_eq_of_forall₂ {α β : Type*} {f : α → β} {P : α → α → Prop} {l m : List α}
    (h : List.Forall₂ P l m) (hP : ∀ a ∈ l, ∀ b, P a b → f a = f b) : l.map f = m.map f := by
  induction h with
  | nil => rfl
  | cons hab _ ih =>
    rw [List.map_cons, List.map_cons, hP _ (by simp) _ hab, ih fun c hc => hP c (by simp [hc])]

theorem exists_perm_of_map {α β : Type*} {f : α → β} {l m : List α}
    (h : (l.map f).Perm (m.map f)) : ∃ m' : List α, m'.Perm m ∧ l.map f = m'.map f := by
  induction l generalizing m with
  | nil => exact ⟨m, .refl m, List.map_nil.trans (List.nil_perm.mp h).symm⟩
  | cons a l ih =>
    obtain ⟨b, hb, hba⟩ := List.mem_map.mp (h.subset (List.mem_map.mpr ⟨a, by simp, rfl⟩))
    obtain ⟨s, t, rfl⟩ := List.append_of_mem hb
    have hl : (l.map f).Perm ((s ++ t).map f) := by
      rw [List.map_cons, ← hba] at h
      exact ((h.trans (List.perm_middle.map f)).cons_inv)
    obtain ⟨m', hm', he⟩ := ih hl
    refine ⟨b :: m', (hm'.cons b).trans List.perm_middle.symm, ?_⟩
    rw [List.map_cons, List.map_cons, he, hba]

end Lists

section Sorting

/-- Members in the order of their keys. -/
def byKey (x y : String × Json) : Prop := x.1 ≤ y.1

instance : DecidableRel byKey := fun x y => inferInstanceAs (Decidable (x.1 ≤ y.1))

instance : Std.Total byKey := ⟨fun x y => String.le_total x.1 y.1⟩

instance : IsTrans (String × Json) byKey := ⟨fun _ _ _ => String.le_trans⟩

theorem sortKeys_obj (kvs : List (String × Json)) :
    (obj kvs).sortKeys = obj ((kvs.map sortMember).insertionSort byKey) := by
  rw [sortKeys, sortMembers_eq_map]
  rfl

theorem perm_of_insertionSort {kvs lws : List (String × Json)}
    (h : kvs.insertionSort byKey = lws.insertionSort byKey) : kvs.Perm lws :=
  (List.perm_insertionSort byKey kvs).symm.trans (h ▸ List.perm_insertionSort byKey lws)

theorem insertionSort_eq_of_perm {kvs lws : List (String × Json)} (hd : (kvs.map (·.1)).Nodup)
    (h : kvs.Perm lws) : kvs.insertionSort byKey = lws.insertionSort byKey := by
  have hk := List.perm_insertionSort byKey kvs
  have hl := List.perm_insertionSort byKey lws
  refine List.Perm.eq_of_pairwise ?_ (List.pairwise_insertionSort byKey kvs)
    (List.pairwise_insertionSort byKey lws) (hk.trans (h.trans hl.symm))
  intro x y hx hy hxy hyx
  have hx' := hk.subset hx
  have hy' := h.symm.subset (hl.subset hy)
  exact List.inj_on_of_nodup_map hd hx' hy' (String.le_antisymm hxy hyx)

end Sorting

/-- Values with one sorted form are the same up to the order of members. -/
theorem same_of_sortKeys {v w : Json} (h : v.sortKeys = w.sortKeys) : Same v w := by
  induction v using Json.induct generalizing w with
  | null => cases w <;> simp_all [sortKeys, Same]
  | bool b => cases w <;> simp_all [sortKeys, Same]
  | int n => cases w <;> simp_all [sortKeys, Same]
  | str s => cases w <;> simp_all [sortKeys, Same]
  | arr xs ih =>
    cases w with
    | arr ys =>
      simp only [sortKeys, sortAll_eq_map, arr.injEq] at h
      exact sameAll_iff.mpr (forall₂_of_map_eq h fun x hx y => ih x hx)
    | _ => simp [sortKeys] at h
  | obj kvs ih =>
    cases w with
    | obj lws =>
      rw [sortKeys_obj, sortKeys_obj, obj.injEq] at h
      obtain ⟨lws', hperm, he⟩ := exists_perm_of_map (perm_of_insertionSort h)
      refine ⟨lws', hperm, sameMembers_iff.mpr (forall₂_of_map_eq he ?_)⟩
      intro kv hkv lw hs
      obtain ⟨hkey, hvalue⟩ := Prod.mk.inj hs
      exact ⟨hkey, ih kv hkv hvalue⟩
    | _ => simp [sortKeys] at h

/-- Where keys are distinct, the order of members does not change the sorted form. -/
theorem sortKeys_of_same {v w : Json} (hd : v.distinctKeys = true) (h : Same v w) :
    v.sortKeys = w.sortKeys := by
  induction v using Json.induct generalizing w with
  | null => cases w <;> simp_all [sortKeys, Same]
  | bool b => cases w <;> simp_all [sortKeys, Same]
  | int n => cases w <;> simp_all [sortKeys, Same]
  | str s => cases w <;> simp_all [sortKeys, Same]
  | arr xs ih =>
    cases w with
    | arr ys =>
      rw [distinctKeys, distinctAll_iff] at hd
      simp only [sortKeys, sortAll_eq_map, arr.injEq]
      exact map_eq_of_forall₂ (sameAll_iff.mp h) fun x hx y => ih x hx (hd x hx)
    | _ => exact h.elim
  | obj kvs ih =>
    cases w with
    | obj lws =>
      obtain ⟨lws', hperm, hs⟩ := h
      rw [distinctKeys, Bool.and_eq_true, decide_eq_true_eq, distinctMembers_iff] at hd
      have he : kvs.map sortMember = lws'.map sortMember := by
        refine map_eq_of_forall₂ (sameMembers_iff.mp hs) fun kv hkv lw hsame => ?_
        exact Prod.ext hsame.1 (ih kv hkv (hd.2 kv hkv) hsame.2)
      have hkeys : ((kvs.map sortMember).map (·.1)).Nodup := by
        rw [List.map_map]
        exact hd.1
      rw [sortKeys_obj, sortKeys_obj,
        insertionSort_eq_of_perm hkeys (he ▸ hperm.map sortMember)]
    | _ => exact h.elim

/-- Canonical texts tell values apart up to the order of members. -/
theorem canonical_eq_iff {v w : Json} (hd : v.distinctKeys = true) :
    v.canonical = w.canonical ↔ Same v w :=
  ⟨fun h => same_of_sortKeys (dumps_injective h),
    fun h => congrArg dumps (sortKeys_of_same hd h)⟩

end Json
