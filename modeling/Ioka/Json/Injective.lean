import Mathlib.Tactic.IntervalCases
import Ioka.Json.Render

/-! # The printer is injective

No printed value is a proper prefix of another one that is followed by a
delimiter. The statement is proved with an arbitrary rest behind the printed
value, so that it composes along strings, arrays and objects.
-/

namespace Json

/-- The text does not continue a number. -/
def Delimited (r : List Char) : Prop := ∀ c ∈ r.head?, c.isDigit = false

/-- The printed form of `x` determines `x`, whatever follows it. -/
def Decodes {α : Type*} (f : α → List Char) (x : α) : Prop :=
  ∀ y r s, Delimited r → Delimited s → f x ++ r = f y ++ s → x = y ∧ r = s

theorem delimited_nil : Delimited [] := by simp [Delimited]

theorem delimited_cons {c : Char} {r : List Char} (h : c.isDigit = false) :
    Delimited (c :: r) := by simp [Delimited, h]

section Strings

def unhex (c : Char) : ℕ := if c.toNat < 58 then c.toNat - 48 else c.toNat - 87

def unhex4 (a b c d : Char) : ℕ := unhex a * 4096 + unhex b * 256 + unhex c * 16 + unhex d

/-- Read back one escaped character. -/
def unescape : List Char → Option (Char × List Char)
  | '\\' :: 'b' :: r => some (Char.ofNat 8, r)
  | '\\' :: 't' :: r => some (Char.ofNat 9, r)
  | '\\' :: 'n' :: r => some (Char.ofNat 10, r)
  | '\\' :: 'f' :: r => some (Char.ofNat 12, r)
  | '\\' :: 'r' :: r => some (Char.ofNat 13, r)
  | '\\' :: 'u' :: a :: b :: c :: d :: r =>
      if 0xd800 ≤ unhex4 a b c d ∧ unhex4 a b c d < 0xdc00 then
        match r with
        | '\\' :: 'u' :: a' :: b' :: c' :: d' :: r => some (Char.ofNat (65536 +
            (unhex4 a b c d - 0xd800) * 1024 + (unhex4 a' b' c' d' - 0xdc00)), r)
        | _ => none
      else some (Char.ofNat (unhex4 a b c d), r)
  | '\\' :: c :: r => some (c, r)
  | c :: r => some (c, r)
  | [] => none

theorem unhex_hexDigit {n : ℕ} (h : n < 16) : unhex (hexDigit n) = n := by
  interval_cases n <;> decide

theorem unhex4_hex4 {n : ℕ} (h : n < 65536) : unhex4 (hexDigit (n / 4096 % 16))
    (hexDigit (n / 256 % 16)) (hexDigit (n / 16 % 16)) (hexDigit (n % 16)) = n := by
  simp only [unhex4, unhex_hexDigit (Nat.mod_lt _ (by decide : 0 < 16))]
  omega

theorem toNat_cases (c : Char) : c.toNat < 0xd800 ∨ 0xdfff < c.toNat ∧ c.toNat < 0x110000 :=
  c.valid

theorem ofNat_eq {c : Char} {n : ℕ} (h : c.toNat = n) : Char.ofNat n = c := by
  rw [← h, Char.ofNat_toNat]

theorem unescape_escape (c : Char) (r : List Char) : unescape (escape c ++ r) = some (c, r) := by
  have hc := toNat_cases c
  unfold escape
  split_ifs with h₁ h₂ h₃ h₄ h₅ h₆ h₇ h₈ h₉
  · subst h₁; rfl
  · subst h₂; rfl
  · exact congrArg (fun d => some (d, r)) (ofNat_eq h₃)
  · exact congrArg (fun d => some (d, r)) (ofNat_eq h₄)
  · exact congrArg (fun d => some (d, r)) (ofNat_eq h₅)
  · exact congrArg (fun d => some (d, r)) (ofNat_eq h₆)
  · exact congrArg (fun d => some (d, r)) (ofNat_eq h₇)
  · rw [List.singleton_append, unescape.eq_def]
    split <;> simp_all
  · simp only [hex4, List.cons_append, List.nil_append, unescape, unhex4_hex4 h₉]
    rw [if_neg (by omega), Char.ofNat_toNat]
  · have hu : 0xd800 + (c.toNat - 65536) / 1024 < 65536 := by omega
    have hl : 0xdc00 + (c.toNat - 65536) % 1024 < 65536 := by omega
    simp only [hex4, List.cons_append, List.nil_append, unescape, unhex4_hex4 hu, unhex4_hex4 hl]
    rw [if_pos (by omega), ofNat_eq (c := c) (by omega)]

theorem escape_inj {c d : Char} {r s : List Char} (h : escape c ++ r = escape d ++ s) :
    c = d ∧ r = s := by
  have hu := congrArg unescape h
  rw [unescape_escape, unescape_escape] at hu
  simpa using hu

theorem head_escape (c : Char) : ∃ x xs, escape c = x :: xs ∧ x ≠ '"' := by
  unfold escape
  split_ifs with h
  all_goals first
    | exact ⟨_, _, rfl, by decide⟩
    | exact ⟨_, _, rfl, h⟩

theorem body_inj {cs ds : List Char} {r s : List Char}
    (h : cs.flatMap escape ++ '"' :: r = ds.flatMap escape ++ '"' :: s) : cs = ds ∧ r = s := by
  induction cs generalizing ds with
  | nil =>
    cases ds with
    | nil => simpa using h
    | cons d ds =>
      obtain ⟨x, xs, hx, hne⟩ := head_escape d
      simp only [List.flatMap_nil, List.nil_append, List.flatMap_cons, hx, List.cons_append,
        List.cons.injEq] at h
      exact absurd h.1.symm hne
  | cons c cs ih =>
    cases ds with
    | nil =>
      obtain ⟨x, xs, hx, hne⟩ := head_escape c
      simp only [List.flatMap_nil, List.nil_append, List.flatMap_cons, hx, List.cons_append,
        List.cons.injEq] at h
      exact absurd h.1 hne
    | cons d ds =>
      simp only [List.flatMap_cons, List.append_assoc] at h
      obtain ⟨rfl, ht⟩ := escape_inj h
      obtain ⟨rfl, hr⟩ := ih ht
      exact ⟨rfl, hr⟩

theorem renderStr_inj {k l : String} {r s : List Char}
    (h : renderStr k ++ r = renderStr l ++ s) : k = l ∧ r = s := by
  simp only [renderStr, List.cons_append, List.append_assoc, List.nil_append, List.cons.injEq,
    true_and] at h
  obtain ⟨h, hr⟩ := body_inj h
  exact ⟨String.toList_inj.mp h, hr⟩

end Strings

section Numbers

theorem digits_inj {ds es r s : List Char} (hd : ∀ c ∈ ds, c.isDigit = true)
    (he : ∀ c ∈ es, c.isDigit = true) (hr : Delimited r) (hs : Delimited s)
    (h : ds ++ r = es ++ s) : ds = es ∧ r = s := by
  induction ds generalizing es with
  | nil =>
    cases es with
    | nil => exact ⟨rfl, h⟩
    | cons e es =>
      rw [List.nil_append] at h
      have := hr e (by rw [h]; simp)
      simp [he e List.mem_cons_self] at this
  | cons d ds ih =>
    cases es with
    | nil =>
      rw [List.nil_append] at h
      have := hs d (by rw [← h]; simp)
      simp [hd d List.mem_cons_self] at this
    | cons e es =>
      simp only [List.cons_append, List.cons.injEq] at h
      obtain ⟨rfl, ht⟩ := h
      obtain ⟨rfl, hrs⟩ := ih (fun c hc => hd c (List.mem_cons_of_mem _ hc))
        (fun c hc => he c (List.mem_cons_of_mem _ hc)) ht
      exact ⟨rfl, hrs⟩

theorem isDigit_of_mem (n : ℕ) : ∀ c ∈ Nat.toDigits 10 n, c.isDigit = true :=
  fun _ hc => Nat.isDigit_of_mem_toDigits (by decide) (by decide) hc

theorem toDigits_inj {m n : ℕ} (h : Nat.toDigits 10 m = Nat.toDigits 10 n) : m = n := by
  rw [← Nat.ofDigitChars_ten_toDigits (n := m), h, Nat.ofDigitChars_ten_toDigits]

theorem head_toDigits (n : ℕ) : ∃ x xs, Nat.toDigits 10 n = x :: xs ∧ x.isDigit = true := by
  cases h : Nat.toDigits 10 n with
  | nil => exact absurd h Nat.toDigits_ne_nil
  | cons x xs => exact ⟨x, xs, rfl, isDigit_of_mem n x (by rw [h]; exact List.mem_cons_self)⟩

theorem renderInt_inj {m n : ℤ} {r s : List Char} (hr : Delimited r) (hs : Delimited s)
    (h : renderInt m ++ r = renderInt n ++ s) : m = n ∧ r = s := by
  have digits {m n : ℕ} {r s : List Char} (hr : Delimited r) (hs : Delimited s)
      (h : Nat.toDigits 10 m ++ r = Nat.toDigits 10 n ++ s) : m = n ∧ r = s := by
    obtain ⟨h, hr⟩ := digits_inj (isDigit_of_mem m) (isDigit_of_mem n) hr hs h
    exact ⟨toDigits_inj h, hr⟩
  cases m with
  | ofNat m =>
    cases n with
    | ofNat n =>
      obtain ⟨rfl, hrs⟩ := digits hr hs h
      exact ⟨rfl, hrs⟩
    | negSucc n =>
      obtain ⟨x, xs, hx, hd⟩ := head_toDigits m
      simp only [renderInt, hx, List.cons_append, List.cons.injEq] at h
      rw [h.1] at hd
      exact absurd hd (by decide)
  | negSucc m =>
    cases n with
    | ofNat n =>
      obtain ⟨x, xs, hx, hd⟩ := head_toDigits n
      simp only [renderInt, hx, List.cons_append, List.cons.injEq] at h
      rw [← h.1] at hd
      exact absurd hd (by decide)
    | negSucc n =>
      simp only [renderInt, List.cons_append, List.cons.injEq, true_and] at h
      obtain ⟨he, hrs⟩ := digits hr hs h
      obtain rfl : m = n := by omega
      exact ⟨rfl, hrs⟩

end Numbers

section Lists

variable {α : Type*} {f : α → List Char}

theorem joined_inj {close : Char} (hclose : close ≠ ',' ∧ close.isDigit = false)
    (hf : ∀ x, ∃ c cs, f x = c :: cs ∧ c ≠ close) :
    ∀ {xs ys : List α} {r s : List Char}, (∀ x ∈ xs, Decodes f x) →
      joined (xs.map f) ++ close :: r = joined (ys.map f) ++ close :: s → xs = ys ∧ r = s
  | [], [], _, _, _, h => by simpa [joined] using h
  | [], y :: ys, r, s, _, h => by
      obtain ⟨c, cs, hc, hne⟩ := hf y
      cases ys <;> simp [joined, hc] at h <;> exact absurd h.1.symm hne
  | x :: xs, [], r, s, _, h => by
      obtain ⟨c, cs, hc, hne⟩ := hf x
      cases xs <;> simp [joined, hc] at h <;> exact absurd h.1 hne
  | x :: xs, y :: ys, r, s, hxs, h => by
      have hcomma (t : List Char) : Delimited (',' :: t) := delimited_cons (by decide)
      have hend (t : List Char) : Delimited (close :: t) := delimited_cons hclose.2
      have hx := hxs x List.mem_cons_self
      cases xs with
      | nil =>
        cases ys with
        | nil =>
          obtain ⟨rfl, hrs⟩ := hx y _ _ (hend r) (hend s) h
          exact ⟨rfl, by simpa using hrs⟩
        | cons y' ys =>
          simp only [List.map_cons, List.map_nil, joined, List.append_assoc, List.cons_append] at h
          have he := (hx y _ _ (hend r) (hcomma _) h).2
          simp only [List.cons.injEq] at he
          exact absurd he.1 hclose.1
      | cons x' xs =>
        cases ys with
        | nil =>
          simp only [List.map_cons, List.map_nil, joined, List.append_assoc, List.cons_append] at h
          have he := (hx y _ _ (hcomma _) (hend s) h).2
          simp only [List.cons.injEq] at he
          exact absurd he.1.symm hclose.1
        | cons y' ys =>
          simp only [List.map_cons, joined, List.append_assoc, List.cons_append] at h
          obtain ⟨rfl, he⟩ := hx y _ _ (hcomma _) (hcomma _) h
          obtain ⟨ht, hrs⟩ := joined_inj hclose hf (fun z hz => hxs z (List.mem_cons_of_mem _ hz))
            (show joined ((x' :: xs).map f) ++ close :: r = joined ((y' :: ys).map f) ++ close :: s
              from (List.cons.inj he).2)
          exact ⟨by rw [ht], hrs⟩

end Lists

section Values

/-- The first character of a printed value tells its kind. -/
def opens : Json → Char → Prop
  | .null, c => c = 'n'
  | .bool true, c => c = 't'
  | .bool false, c => c = 'f'
  | .int _, c => c = '-' ∨ c.isDigit = true
  | .str _, c => c = '"'
  | .arr _, c => c = '['
  | .obj _, c => c = '\x7b'

theorem head_render (v : Json) : ∃ c cs, v.render = c :: cs ∧ v.opens c := by
  cases v with
  | int n =>
    cases n with
    | ofNat n =>
      obtain ⟨x, xs, hx, hd⟩ := head_toDigits n
      exact ⟨x, xs, by simp [render, renderInt, hx], Or.inr hd⟩
    | negSucc n => exact ⟨_, _, rfl, Or.inl rfl⟩
  | bool b => cases b <;> exact ⟨_, _, rfl, rfl⟩
  | _ => exact ⟨_, _, rfl, rfl⟩

theorem opens_ne_close {v : Json} {c : Char} (h : v.opens c) : c ≠ ']' := by
  rintro rfl
  rcases v with _ | (_ | _) | _ | _ | _ | _ <;> revert h <;> simp [opens]

theorem head_render_ne {v : Json} : ∃ c cs, v.render = c :: cs ∧ c ≠ ']' := by
  obtain ⟨c, cs, hc, ho⟩ := head_render v
  exact ⟨c, cs, hc, opens_ne_close ho⟩

theorem head_renderMember (kv : String × Json) :
    ∃ c cs, renderMember kv = c :: cs ∧ c ≠ '\x7d' :=
  ⟨_, _, rfl, by decide⟩

/-- The kind of value that a first character announces. -/
def announces (c : Char) : ℕ :=
  if c = 'n' then 0 else if c = 't' then 1 else if c = 'f' then 2 else if c = '"' then 3
  else if c = '[' then 4 else if c = '\x7b' then 5 else 6

def kind : Json → ℕ
  | .null => 0
  | .bool true => 1
  | .bool false => 2
  | .str _ => 3
  | .arr _ => 4
  | .obj _ => 5
  | .int _ => 6

theorem announces_eq_kind {v : Json} {c : Char} (h : v.opens c) : announces c = v.kind := by
  rcases v with _ | (_ | _) | n | _ | _ | _
  case int =>
    rcases h with rfl | h
    · rfl
    · have hne (d : Char) (hd : d.isDigit = false) : c ≠ d := by rintro rfl; simp [h] at hd
      simp [announces, kind, hne 'n' rfl, hne 't' rfl, hne 'f' rfl, hne '"' rfl, hne '[' rfl,
        hne '\x7b' rfl]
  all_goals exact h ▸ rfl

theorem kind_eq_of_render {v w : Json} {r s : List Char} (h : v.render ++ r = w.render ++ s) :
    v.kind = w.kind := by
  obtain ⟨c, cs, hc, ho⟩ := head_render v
  obtain ⟨d, ds, hd, ho'⟩ := head_render w
  rw [hc, hd, List.cons_append, List.cons_append, List.cons.injEq] at h
  rw [← announces_eq_kind ho, ← announces_eq_kind ho', h.1]

theorem decodes_member {kv : String × Json} (h : Decodes render kv.2) :
    Decodes renderMember kv := by
  rintro ⟨l, w⟩ r s hr hs he
  simp only [renderMember, List.append_assoc, List.cons_append] at he
  obtain ⟨hk, he⟩ := renderStr_inj he
  obtain ⟨hv, hrs⟩ := h w r s hr hs (List.cons.inj he).2
  exact ⟨Prod.ext hk hv, hrs⟩

theorem decodes_render (v : Json) : Decodes render v := by
  induction v using Json.induct with
  | null =>
    intro w r s _ _ h
    rcases w with _ | (_ | _) | _ | _ | _ | _ <;>
      first
        | exact ⟨rfl, List.append_cancel_left h⟩
        | exact absurd (kind_eq_of_render h) (by simp [kind])
  | bool b =>
    intro w r s _ _ h
    rcases w with _ | (_ | _) | _ | _ | _ | _ <;> rcases b with _ | _ <;>
      first
        | exact ⟨rfl, List.append_cancel_left h⟩
        | exact absurd (kind_eq_of_render h) (by simp [kind])
  | int n =>
    intro w r s hr hs h
    rcases w with _ | (_ | _) | m | _ | _ | _
    case int =>
      obtain ⟨rfl, hrs⟩ := renderInt_inj hr hs h
      exact ⟨rfl, hrs⟩
    all_goals exact absurd (kind_eq_of_render h) (by simp [kind])
  | str t =>
    intro w r s _ _ h
    rcases w with _ | (_ | _) | _ | u | _ | _
    case str =>
      obtain ⟨rfl, hrs⟩ := renderStr_inj h
      exact ⟨rfl, hrs⟩
    all_goals exact absurd (kind_eq_of_render h) (by simp [kind])
  | arr xs ih =>
    intro w r s _ _ h
    rcases w with _ | (_ | _) | _ | _ | ys | _
    case arr =>
      simp only [render, renderAll_eq_map, List.cons_append, List.append_assoc, List.nil_append,
        List.cons.injEq, true_and] at h
      obtain ⟨rfl, hrs⟩ := joined_inj (by decide) (fun _ => head_render_ne) ih h
      exact ⟨rfl, hrs⟩
    all_goals exact absurd (kind_eq_of_render h) (by simp [kind])
  | obj kvs ih =>
    intro w r s _ _ h
    rcases w with _ | (_ | _) | _ | _ | _ | lws
    case obj =>
      simp only [render, renderMembers_eq_map, List.cons_append, List.append_assoc,
        List.nil_append, List.cons.injEq, true_and] at h
      obtain ⟨rfl, hrs⟩ := joined_inj (by decide) head_renderMember
        (fun kv hkv => decodes_member (ih kv hkv)) h
      exact ⟨rfl, hrs⟩
    all_goals exact absurd (kind_eq_of_render h) (by simp [kind])

theorem render_injective : Function.Injective render := by
  intro v w h
  exact (decodes_render v w [] [] delimited_nil delimited_nil (by simp [h])).1

/-- Equal texts come from equal values. -/
theorem dumps_injective : Function.Injective dumps :=
  fun _ _ h => render_injective (String.ofList_injective h)

end Values

end Json
