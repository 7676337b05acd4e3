import Ioka.Json.Load
import Ioka.Json.Reordering

/-! # Loading what was dumped

The text that `json.dumps` prints of a value loads as that value, if no object has two
members under one key and no integer is too long. Each kind of token is read back
behind any text that cannot continue it.
-/

namespace Json

open Python

mutual

/-- The object that a value is. -/
def toObj : Json → Obj
  | .null => .none
  | .bool b => .bool b
  | .int n => .int n
  | .str s => .str (Python.str s)
  | .arr xs => .list (toObjAll xs)
  | .obj kvs => .dict (toDict kvs)

def toObjAll : List Json → List Obj
  | [] => []
  | x :: xs => toObj x :: toObjAll xs

def toDict : List (String × Json) → Dict
  | [] => []
  | (k, x) :: kvs => (Python.str k, toObj x) :: toDict kvs

end

mutual

/-- No integer has more digits than `int()` reads. -/
def shortInts : Json → Bool
  | .int n => (decimal n.natAbs).length ≤ maxStrDigits
  | .arr xs => shortIntsAll xs
  | .obj kvs => shortIntsMembers kvs
  | _ => true

def shortIntsAll : List Json → Bool
  | [] => true
  | x :: xs => shortInts x && shortIntsAll xs

def shortIntsMembers : List (String × Json) → Bool
  | [] => true
  | (_, x) :: kvs => shortInts x && shortIntsMembers kvs

end

theorem exists_succ {n fuel : ℕ} (h : n < fuel) : ∃ m, fuel = m + 1 :=
  Nat.exists_eq_succ_of_ne_zero (Nat.ne_zero_of_lt h)

section Strings

theorem hexDigit?_hexDigit {n : ℕ} (h : n < 16) : hexDigit? (.scalar (hexDigit n)) = some n := by
  interval_cases n <;> decide

theorem hex4?_hex4 {n : ℕ} (h : n < 65536) (r : Str) :
    hex4? (text (hex4 n) ++ r) = some (n, r) := by
  simp only [hex4, text, List.map_cons, List.map_nil, List.cons_append, List.nil_append, hex4?,
    hexDigit?_hexDigit (Nat.mod_lt _ (by decide : 0 < 16)), Option.bind_eq_bind, Option.bind_some,
    Option.pure_def, Option.some.injEq, Prod.mk.injEq, and_true]
  omega

theorem joinSurrogates_eq {c : Char} (h : 65536 ≤ c.toNat) :
    joinSurrogates (0xd800 + (c.toNat - 65536) / 1024) (0xdc00 + (c.toNat - 65536) % 1024) =
      .scalar c := by
  have hn : 0x10000 + (0xd800 + (c.toNat - 65536) / 1024 - 0xd800) * 0x400 +
      (0xdc00 + (c.toNat - 65536) % 1024 - 0xdc00) = c.toNat := by omega
  rw [joinSurrogates, hn, CodePoint.ofNat_toNat]

theorem scanEscape_hex4 {n : ℕ} (h : n < 65536) (hn : isHighSurrogate n = false) (r : Str) :
    scanEscape (.scalar 'u' :: (text (hex4 n) ++ r)) = .ok (.ofNat n, r) := by
  simp [scanEscape, hex4?_hex4 h, hn]

theorem scanEscape_pair {high low : ℕ} (h : high < 65536) (h' : low < 65536)
    (hh : isHighSurrogate high = true) (hl : isLowSurrogate low = true) (r : Str) :
    scanEscape (.scalar 'u' :: (text (hex4 high) ++ .scalar '\\' :: .scalar 'u' ::
      (text (hex4 low) ++ r))) = .ok (joinSurrogates high low, r) := by
  simp [scanEscape, scanLowSurrogate, hex4?_hex4 h, hex4?_hex4 h', hh, hl]

theorem scanString_backslash (fuel : ℕ) {c : CodePoint} {s r : Str}
    (h : scanEscape s = .ok (c, r)) : scanString (fuel + 1) (.scalar '\\' :: s) = (do
      let (t, r) ← scanString fuel r
      return (c :: t, r)) := by
  rw [scanString, if_neg (by decide), if_pos rfl, h]
  rfl

theorem scanString_escape (fuel : ℕ) (c : Char) (r : Str) :
    scanString (fuel + 1) (text (escape c) ++ r) = (do
      let (s, r) ← scanString fuel r
      return (.scalar c :: s, r)) := by
  have hc := toNat_cases c
  unfold escape
  split_ifs with h₁ h₂ h₃ h₄ h₅ h₆ h₇ h₈ h₉
  · subst h₁; rfl
  · subst h₂; rfl
  · rw [← ofNat_eq h₃]; rfl
  · rw [← ofNat_eq h₄]; rfl
  · rw [← ofNat_eq h₅]; rfl
  · rw [← ofNat_eq h₆]; rfl
  · rw [← ofNat_eq h₇]; rfl
  · have hcontrol : isControl (.scalar c) = false := decide_eq_false (by omega)
    simp [text, scanString, h₁, h₂, hcontrol]
  · have hn : isHighSurrogate c.toNat = false := decide_eq_false (by omega)
    refine scanString_backslash fuel ?_
    rw [← CodePoint.ofNat_toNat c]
    exact scanEscape_hex4 h₉ hn r
  · have hh : isHighSurrogate (0xd800 + (c.toNat - 65536) / 1024) = true :=
      decide_eq_true (by omega)
    have hl : isLowSurrogate (0xdc00 + (c.toNat - 65536) % 1024) = true :=
      decide_eq_true (by omega)
    have hpair := scanEscape_pair (by omega) (by omega) hh hl r
    rw [joinSurrogates_eq (by omega)] at hpair
    simp only [text, List.map_cons, List.map_append, List.cons_append, List.append_assoc] at hpair ⊢
    exact scanString_backslash fuel hpair

/-- A printed string is read back up to its closing quote. -/
theorem scanString_escapes {fuel : ℕ} (cs : List Char) (r : Str) (h : cs.length < fuel) :
    scanString fuel (text (cs.flatMap escape) ++ .scalar '"' :: r) = .ok (text cs, r) := by
  induction cs generalizing fuel with
  | nil =>
    obtain ⟨fuel, rfl⟩ := exists_succ h
    rfl
  | cons c cs ih =>
    obtain ⟨fuel, rfl⟩ := exists_succ h
    rw [List.flatMap_cons, text_append, List.append_assoc, scanString_escape,
      ih (Nat.lt_of_succ_lt_succ h)]
    rfl

end Strings

section Numbers

/-- The text does not continue a number. -/
def Ends (r : Str) : Prop := ∀ c ∈ r.head?, c = .scalar ',' ∨ c = .scalar ']' ∨ c = .scalar '\x7d'

theorem ends_nil : Ends [] := nofun

theorem ends_cons {c : Char} {r : Str} (h : c = ',' ∨ c = ']' ∨ c = '\x7d') :
    Ends (.scalar c :: r) := by
  simpa [Ends] using h

theorem digitRun_digits {ds : List Char} {r : Str} (hd : ∀ c ∈ ds, c.isDigit = true)
    (hr : digitRun r = ([], r)) : digitRun (text ds ++ r) = (ds, r) := by
  induction ds with
  | nil => exact hr
  | cons d ds ih =>
    rw [text, List.map_cons, List.cons_append, digitRun, if_pos (hd d List.mem_cons_self)]
    have ht := ih fun c hc => hd c (List.mem_cons_of_mem _ hc)
    rw [text] at ht
    rw [ht]

theorem digitRun_ends {r : Str} (hr : Ends r) : digitRun r = ([], r) := by
  cases r with
  | nil => rfl
  | cons c r => rcases hr c rfl with rfl | rfl | rfl <;> rfl

theorem scanNumberRest_ends (negative : Bool) {whole : List Char} {r : Str} (hr : Ends r)
    (hlen : whole.length ≤ maxStrDigits) : scanNumberRest negative whole r =
      .ok (.int (if negative then -(Nat.ofDigitChars 10 whole 0 : ℤ)
        else Nat.ofDigitChars 10 whole 0), r) := by
  have hf : scanFraction r = ([], r) := by
    cases r with
    | nil => rfl
    | cons c r => rcases hr c rfl with rfl | rfl | rfl <;> rfl
  have he : scanExponent r = (none, r) := by
    cases r with
    | nil => rfl
    | cons c r => rcases hr c rfl with rfl | rfl | rfl <;> rfl
  simp [scanNumberRest, hf, he, hlen]

theorem head_decimal {n : ℕ} (h : 0 < n) : ∃ c cs, decimal n = c :: cs ∧ c ≠ '0' := by
  induction n using Nat.strong_induction_on with
  | _ n ih =>
    rw [decimal, Nat.toDigits_eq_if (by decide)]
    split_ifs with hn
    · have hchar : ∀ n < 10, 0 < n → n.digitChar ≠ '0' := by decide
      exact ⟨_, _, rfl, hchar n hn h⟩
    · obtain ⟨c, cs, hc, hne⟩ := ih (n / 10) (by omega) (by omega)
      rw [decimal] at hc
      exact ⟨c, cs ++ _, by rw [hc]; rfl, hne⟩

theorem scanUnsigned_decimal (negative : Bool) {n : ℕ} {r : Str} (hr : Ends r)
    (hlen : (decimal n).length ≤ maxStrDigits) : scanUnsigned negative (text (decimal n) ++ r) =
      .ok (.int (if negative then -(n : ℤ) else n), r) := by
  rcases Nat.eq_zero_or_pos n with rfl | hn
  · exact scanNumberRest_ends negative hr (by decide)
  · have hrun : digitRun (text (decimal n) ++ r) = (decimal n, r) :=
      digitRun_digits (fun c => isDigit_of_mem_decimal) (digitRun_ends hr)
    obtain ⟨c, cs, hc, hne⟩ := head_decimal hn
    have hvalue : Nat.ofDigitChars 10 (decimal n) 0 = n := Nat.ofDigitChars_ten_toDigits
    have hrest := scanNumberRest_ends negative hr hlen
    rw [hvalue] at hrest
    rw [hc] at hrun hrest ⊢
    unfold scanUnsigned
    split
    · rename_i he
      simp only [text, List.map_cons, List.cons_append, List.cons.injEq,
        CodePoint.scalar.injEq] at he
      exact absurd he.1 hne
    · simp only [hrun]
      exact hrest

theorem scanNumber_renderInt {n : ℤ} {r : Str} (hr : Ends r)
    (hlen : (decimal n.natAbs).length ≤ maxStrDigits) :
    scanNumber (text (renderInt n) ++ r) = .ok (.int n, r) := by
  cases n with
  | ofNat n =>
    have h : scanUnsigned false (text (decimal n) ++ r) = .ok (.int (Int.ofNat n), r) :=
      scanUnsigned_decimal false hr hlen
    obtain ⟨c, cs, hc, hd⟩ := exists_decimal n
    change scanNumber (text (decimal n) ++ r) = _
    rw [hc] at h ⊢
    unfold scanNumber
    split
    · rename_i he
      simp only [text, List.map_cons, List.cons_append, List.cons.injEq,
        CodePoint.scalar.injEq] at he
      rw [he.1] at hd
      cases hd
    · exact h
  | negSucc n => exact scanUnsigned_decimal true hr hlen

end Numbers

section Values

theorem skipSpace_cons {c : Char} {r : Str} (h : isJsonSpace (.scalar c) = false) :
    skipSpace (.scalar c :: r) = .scalar c :: r := by
  rw [skipSpace, List.dropWhile_cons_of_neg (by simp [h])]

theorem isJsonSpace_digit {c : Char} (h : c.isDigit = true) : isJsonSpace (.scalar c) = false := by
  have hne (d : Char) (hd : d.isDigit = false) : c ≠ d := ne_of_isDigit h hd
  simp [isJsonSpace, hne ' ' rfl, hne '\t' rfl, hne '\n' rfl, hne '\r' rfl]

theorem skipSpace_render (v : Json) (r : Str) :
    skipSpace (text v.render ++ r) = text v.render ++ r := by
  obtain ⟨c, cs, hc, ho⟩ := head_render v
  rw [hc]
  refine skipSpace_cons ?_
  rcases v with _ | (_ | _) | n | _ | _ | _
  case int =>
    rcases ho with rfl | hd
    · rfl
    · exact isJsonSpace_digit hd
  all_goals
    cases ho
    rfl

theorem scanConstant_renderInt (n : ℤ) (r : Str) :
    scanConstant (text (renderInt n) ++ r) = none := by
  have hdigit {c : Char} {s : Str} (hc : c.isDigit = true) :
      scanConstant (.scalar c :: s) = none := by
    have hne (d : Char) (hd : d.isDigit = false) : d ≠ c := (ne_of_isDigit hc hd).symm
    simp [scanConstant, Python.str, text, hne]
  cases n with
  | ofNat n =>
    obtain ⟨c, cs, hc, hd⟩ := exists_decimal n
    change scanConstant (text (decimal n) ++ r) = none
    rw [hc]
    exact hdigit hd
  | negSucc n =>
    obtain ⟨c, cs, hc, hd⟩ := exists_decimal (n + 1)
    have hne : 'I' ≠ c := (ne_of_isDigit hd (by decide)).symm
    change scanConstant (.scalar '-' :: (text (decimal (n + 1)) ++ r)) = none
    rw [hc]
    simp [scanConstant, Python.str, text, hne]

theorem toObjAll_eq_map (xs : List Json) : toObjAll xs = xs.map toObj := by
  induction xs with
  | nil => rfl
  | cons x xs ih => rw [toObjAll, ih, List.map_cons]

def toItem (kv : String × Json) : Str × Obj := (Python.str kv.1, kv.2.toObj)

theorem toDict_eq_map (kvs : List (String × Json)) : toDict kvs = kvs.map toItem := by
  induction kvs with
  | nil => rfl
  | cons kv kvs ih => rw [toDict, ih, List.map_cons, toItem]

/-- A value that is read back from its printed form, whatever follows that ends a number. -/
def ReadsBack (v : Json) : Prop :=
  ∀ fuel r, 2 * v.render.length < fuel → Ends r →
    scanOnce fuel (text v.render ++ r) = .ok (v.toObj, r)

theorem exists_joined (x : List Char) (xs : List (List Char)) :
    ∃ t, joined (x :: xs) = x ++ t := by
  cases xs with
  | nil => exact ⟨[], (List.append_nil x).symm⟩
  | cons y ys => exact ⟨_, rfl⟩

theorem skipSpace_joined (x : Json) (xs : List Json) (r : Str) :
    skipSpace (text (joined ((x :: xs).map render)) ++ r) =
      text (joined ((x :: xs).map render)) ++ r := by
  obtain ⟨t, ht⟩ := exists_joined x.render (xs.map render)
  rw [List.map_cons, ht, text_append, List.append_assoc]
  exact skipSpace_render x _

section Steps

variable {fuel : ℕ} {s r : Str} {value : Obj}

theorem scanElements_last (elements : List Obj)
    (h : scanOnce fuel s = .ok (value, .scalar ']' :: r)) :
    scanElements (fuel + 1) elements s = .ok (.list (elements ++ [value]), r) := by
  rw [scanElements, h]
  rfl

theorem scanElements_next (elements : List Obj)
    (h : scanOnce fuel s = .ok (value, .scalar ',' :: r)) :
    scanElements (fuel + 1) elements s = scanElements fuel (elements ++ [value]) (skipSpace r) := by
  rw [scanElements, h]
  rfl

variable {key : Str} {t : Str}

theorem scanMembers_last (members : Dict) (hk : scanString fuel s = .ok (key, .scalar ':' :: t))
    (h : scanOnce fuel (skipSpace t) = .ok (value, .scalar '\x7d' :: r)) :
    scanMembers (fuel + 1) members (.scalar '"' :: s) =
      .ok (.dict (setItem members key value), r) := by
  rw [scanMembers, if_pos rfl, hk]
  change (scanOnce fuel (skipSpace t) >>= _) = _
  rw [h]
  rfl

theorem scanMembers_next (members : Dict) (hk : scanString fuel s = .ok (key, .scalar ':' :: t))
    (h : scanOnce fuel (skipSpace t) = .ok (value, .scalar ',' :: r)) :
    scanMembers (fuel + 1) members (.scalar '"' :: s) =
      scanMembers fuel (setItem members key value) (skipSpace r) := by
  rw [scanMembers, if_pos rfl, hk]
  change (scanOnce fuel (skipSpace t) >>= _) = _
  rw [h]
  rfl

end Steps

theorem scanElements_joined {x : Json} {xs : List Json} (hxs : ∀ y ∈ x :: xs, ReadsBack y)
    {fuel : ℕ} (elements : List Obj) (r : Str)
    (h : 2 * (joined ((x :: xs).map render)).length + 1 < fuel) :
    scanElements fuel elements (text (joined ((x :: xs).map render)) ++ .scalar ']' :: r) =
      .ok (.list (elements ++ (x :: xs).map toObj), r) := by
  induction xs generalizing x fuel elements with
  | nil =>
    obtain ⟨fuel, rfl⟩ := exists_succ h
    simp only [List.map_cons, List.map_nil, joined] at h ⊢
    exact scanElements_last elements (hxs x (by simp) fuel _ (by omega) (ends_cons (by simp)))
  | cons y ys ih =>
    obtain ⟨fuel, rfl⟩ := exists_succ h
    have hx := hxs x (by simp)
    have hjoined : joined ((x :: y :: ys).map render) =
        x.render ++ ',' :: joined ((y :: ys).map render) := rfl
    rw [hjoined, List.length_append, List.length_cons] at h
    have htext : text (joined ((x :: y :: ys).map render)) ++ .scalar ']' :: r =
        text x.render ++ .scalar ',' :: (text (joined ((y :: ys).map render)) ++
          .scalar ']' :: r) := by
      rw [hjoined, text_append, List.append_assoc]
      rfl
    rw [htext, scanElements_next elements (hx fuel _ (by omega) (ends_cons (by simp))),
      skipSpace_joined, ih (fun z hz => hxs z (List.mem_cons_of_mem _ hz)) _ (by omega)]
    simp

theorem length_le_escapes (cs : List Char) : cs.length ≤ (cs.flatMap escape).length := by
  induction cs with
  | nil => exact le_rfl
  | cons c cs ih =>
    obtain ⟨x, xs, hx, _⟩ := head_escape c
    rw [List.flatMap_cons, List.length_append, hx, List.length_cons, List.length_cons]
    omega

theorem text_renderMember (kv : String × Json) (r : Str) :
    text (renderMember kv) ++ r = .scalar '"' :: (text (kv.1.toList.flatMap escape) ++
      .scalar '"' :: .scalar ':' :: (text kv.2.render ++ r)) := by
  simp [renderMember, renderStr, text]

theorem length_renderMember (kv : String × Json) :
    kv.1.toList.length + kv.2.render.length + 3 ≤ (renderMember kv).length := by
  have hk := length_le_escapes kv.1.toList
  simp only [renderMember, renderStr, List.length_cons, List.length_append]
  omega

theorem skipSpace_members (kv : String × Json) (kvs : List (String × Json)) (r : Str) :
    skipSpace (text (joined ((kv :: kvs).map renderMember)) ++ r) =
      text (joined ((kv :: kvs).map renderMember)) ++ r := by
  obtain ⟨t, ht⟩ := exists_joined (renderMember kv) (kvs.map renderMember)
  rw [List.map_cons, ht, text_append, List.append_assoc, text_renderMember]
  exact skipSpace_cons rfl

theorem scanString_key {fuel : ℕ} {k : String} (h : k.toList.length < fuel) (r : Str) :
    scanString fuel (text (k.toList.flatMap escape) ++ .scalar '"' :: r) =
      .ok (Python.str k, r) := scanString_escapes k.toList r h

theorem notMem_of_nodup {ks : List Str} {kv : String × Json} {kvs : List (String × Json)}
    (hd : (ks ++ (kv :: kvs).map fun lw => Python.str lw.1).Nodup) : Python.str kv.1 ∉ ks := by
  rw [List.nodup_append] at hd
  exact fun hm => hd.2.2 _ hm _ (by simp) rfl

theorem scanMembers_joined {kv : String × Json} {kvs : List (String × Json)}
    (hkvs : ∀ lw ∈ kv :: kvs, ReadsBack lw.2) {fuel : ℕ} (members : Dict) (r : Str)
    (hd : (members.map (·.1) ++ (kv :: kvs).map fun lw => Python.str lw.1).Nodup)
    (h : 2 * (joined ((kv :: kvs).map renderMember)).length < fuel) :
    scanMembers fuel members (text (joined ((kv :: kvs).map renderMember)) ++
      .scalar '\x7d' :: r) = .ok (.dict (members ++ (kv :: kvs).map toItem), r) := by
  induction kvs generalizing kv fuel members with
  | nil =>
    obtain ⟨fuel, rfl⟩ := exists_succ h
    have hnew := notMem_of_nodup hd
    simp only [List.map_cons, List.map_nil, joined] at h ⊢
    have hlen := length_renderMember kv
    rw [text_renderMember, scanMembers_last members (scanString_key (by omega) _)
      (by rw [skipSpace_render]; exact hkvs kv (by simp) fuel _ (by omega) (ends_cons (by simp))),
      setItem_of_notMem hnew]
    rfl
  | cons lw lws ih =>
    obtain ⟨fuel, rfl⟩ := exists_succ h
    have hlen := length_renderMember kv
    have hjoined : joined ((kv :: lw :: lws).map renderMember) =
        renderMember kv ++ ',' :: joined ((lw :: lws).map renderMember) := rfl
    rw [hjoined, List.length_append, List.length_cons] at h
    have htext : text (joined ((kv :: lw :: lws).map renderMember)) ++ .scalar '\x7d' :: r =
        text (renderMember kv) ++ .scalar ',' ::
          (text (joined ((lw :: lws).map renderMember)) ++ .scalar '\x7d' :: r) := by
      rw [hjoined, text_append, List.append_assoc]
      rfl
    have hnew := notMem_of_nodup hd
    have hd' : ((members ++ [(Python.str kv.1, kv.2.toObj)]).map (·.1) ++
        (lw :: lws).map fun lw => Python.str lw.1).Nodup := by
      simpa using hd
    rw [htext, text_renderMember, scanMembers_next members (scanString_key (by omega) _)
      (by rw [skipSpace_render]; exact hkvs kv (by simp) fuel _ (by omega) (ends_cons (by simp))),
      setItem_of_notMem hnew, skipSpace_members,
      ih (fun z hz => hkvs z (List.mem_cons_of_mem _ hz)) _ hd' (by omega)]
    simp [toItem]

theorem shortIntsAll_iff {xs : List Json} :
    shortIntsAll xs = true ↔ ∀ x ∈ xs, x.shortInts = true := by
  induction xs with
  | nil => simp [shortIntsAll]
  | cons x xs ih => simp [shortIntsAll, ih]

theorem shortIntsMembers_iff {kvs : List (String × Json)} :
    shortIntsMembers kvs = true ↔ ∀ kv ∈ kvs, kv.2.shortInts = true := by
  induction kvs with
  | nil => simp [shortIntsMembers]
  | cons kv kvs ih => simp [shortIntsMembers, ih]

theorem joined_ne_close (x : Json) (xs : List Json) (r s : Str) :
    text (joined ((x :: xs).map render)) ++ r ≠ .scalar ']' :: s := by
  obtain ⟨t, ht⟩ := exists_joined x.render (xs.map render)
  obtain ⟨c, cs, hc, hne⟩ := head_render_ne (v := x)
  rw [List.map_cons, ht, hc]
  intro he
  exact hne (scalar_injective (List.cons.inj he).1)

theorem members_ne_close (kv : String × Json) (kvs : List (String × Json)) (r s : Str) :
    text (joined ((kv :: kvs).map renderMember)) ++ r ≠ .scalar '\x7d' :: s := by
  obtain ⟨t, ht⟩ := exists_joined (renderMember kv) (kvs.map renderMember)
  rw [List.map_cons, ht, text_append, List.append_assoc, text_renderMember]
  intro he
  cases (List.cons.inj he).1

/-- A value is read back behind its printed form, if its keys are distinct and its integers
short. -/
theorem readsBack (v : Json) (hd : v.distinctKeys = true) (hi : v.shortInts = true) :
    ReadsBack v := by
  induction v using Json.induct with
  | null =>
    intro fuel r h _
    obtain ⟨fuel, rfl⟩ := exists_succ h
    rfl
  | bool b =>
    intro fuel r h _
    obtain ⟨fuel, rfl⟩ := exists_succ h
    cases b <;> rfl
  | int n =>
    intro fuel r h hr
    obtain ⟨fuel, rfl⟩ := exists_succ h
    have hconstant := scanConstant_renderInt n r
    have hnumber := scanNumber_renderInt hr (of_decide_eq_true hi)
    obtain ⟨c, cs, hc, ho⟩ := head_render (.int n)
    have hne (d : Char) (hd : d.isDigit = false) (hminus : d ≠ '-') :
        CodePoint.scalar c ≠ .scalar d := by
      rcases ho with rfl | hdigit
      · exact fun he => hminus (scalar_injective he).symm
      · exact fun he => ne_of_isDigit hdigit hd (scalar_injective he)
    rw [render] at hc ⊢
    rw [hc] at hconstant hnumber ⊢
    simp only [text, List.map_cons, List.cons_append] at hconstant hnumber ⊢
    rw [scanOnce, if_neg (hne '"' rfl (by decide)), if_neg (hne '\x7b' rfl (by decide)),
      if_neg (hne '[' rfl (by decide)), hconstant]
    exact hnumber
  | str s =>
    intro fuel r h _
    obtain ⟨fuel, rfl⟩ := exists_succ h
    have hlen := length_le_escapes s.toList
    have htext : text (render (.str s)) ++ r =
        .scalar '"' :: (text (s.toList.flatMap escape) ++ .scalar '"' :: r) := by
      simp [render, renderStr, text]
    simp only [render, renderStr, List.length_cons, List.length_append] at h
    rw [htext, scanOnce, if_pos rfl, scanString_key (by omega)]
    rfl
  | arr xs ih =>
    intro fuel r h _
    obtain ⟨fuel, rfl⟩ := exists_succ h
    cases xs with
    | nil => rfl
    | cons x xs =>
      rw [distinctKeys, distinctAll_iff] at hd
      rw [shortInts, shortIntsAll_iff] at hi
      have htext : text (render (.arr (x :: xs))) ++ r =
          .scalar '[' :: (text (joined ((x :: xs).map render)) ++ .scalar ']' :: r) := by
        rw [render, renderAll_eq_map]
        simp [text]
      simp only [render, renderAll_eq_map, List.length_cons, List.length_append] at h
      rw [htext, scanOnce, if_neg (by decide), if_neg (by decide), if_pos rfl, skipSpace_joined]
      split
      · rename_i he
        exact absurd he (joined_ne_close x xs _ _)
      · rw [scanElements_joined (fun y hy => ih y hy (hd y hy) (hi y hy)) [] r (by omega), toObj,
          toObjAll_eq_map]
        rfl
  | obj kvs ih =>
    intro fuel r h _
    obtain ⟨fuel, rfl⟩ := exists_succ h
    cases kvs with
    | nil => rfl
    | cons kv kvs =>
      rw [distinctKeys, Bool.and_eq_true, decide_eq_true_eq, distinctMembers_iff] at hd
      rw [shortInts, shortIntsMembers_iff] at hi
      have htext : text (render (.obj (kv :: kvs))) ++ r =
          .scalar '\x7b' :: (text (joined ((kv :: kvs).map renderMember)) ++
            .scalar '\x7d' :: r) := by
        rw [render, renderMembers_eq_map]
        simp [text]
      have hkeys : ((kv :: kvs).map fun lw => Python.str lw.1).Nodup := by
        have hstr := hd.1.map str_injective
        rwa [List.map_map] at hstr
      simp only [render, renderMembers_eq_map, List.length_cons, List.length_append] at h
      rw [htext, scanOnce, if_neg (by decide), if_pos rfl, skipSpace_members]
      split
      · rename_i he
        exact absurd he (members_ne_close kv kvs _ _)
      · rw [scanMembers_joined (fun lw hlw => ih lw hlw (hd.2 lw hlw) (hi lw hlw)) [] r hkeys
          (by omega), toObj, toDict_eq_map]
        rfl

end Values

section Bytes

theorem printable_nil : Printable [] := List.forall_mem_nil _

theorem printable_append {cs ds : List Char} (hc : Printable cs) (hd : Printable ds) :
    Printable (cs ++ ds) := by
  intro c h
  rcases List.mem_append.mp h with h | h
  · exact hc c h
  · exact hd c h

theorem printable_cons {c : Char} {cs : List Char} (hc : 32 ≤ c.toNat ∧ c.toNat < 128)
    (h : Printable cs) : Printable (c :: cs) := by
  rintro d (_ | ⟨_, hd⟩)
  · exact hc
  · exact h d hd

theorem printable_hexDigit {n : ℕ} (h : n < 16) :
    32 ≤ (hexDigit n).toNat ∧ (hexDigit n).toNat < 128 := by
  interval_cases n <;> decide

theorem printable_hex4 (n : ℕ) : Printable (hex4 n) := by
  have hdigit (m : ℕ) := printable_hexDigit (Nat.mod_lt m (by decide : 0 < 16))
  simp only [Printable, hex4, List.mem_cons, List.not_mem_nil, or_false]
  rintro c (rfl | rfl | rfl | rfl) <;> exact hdigit _

theorem printable_escape (c : Char) : Printable (escape c) := by
  have hpair {d : Char} (hd : 32 ≤ d.toNat ∧ d.toNat < 128) : Printable ['\\', d] :=
    printable_cons (by decide) (printable_cons hd printable_nil)
  have hhex (n : ℕ) : Printable ('\\' :: 'u' :: hex4 n) :=
    printable_cons (by decide) (printable_cons (by decide) (printable_hex4 n))
  unfold escape
  split_ifs with h₁ h₂ h₃ h₄ h₅ h₆ h₇ h₈ h₉
  · exact hpair (by decide)
  · exact hpair (by decide)
  · exact hpair (by decide)
  · exact hpair (by decide)
  · exact hpair (by decide)
  · exact hpair (by decide)
  · exact hpair (by decide)
  · exact printable_cons (by omega) printable_nil
  · exact hhex _
  · exact printable_append (hhex _) (hhex _)

theorem printable_joined {xs : List (List Char)} (h : ∀ x ∈ xs, Printable x) :
    Printable (joined xs) := by
  induction xs with
  | nil => exact printable_nil
  | cons x xs ih =>
    cases xs with
    | nil => exact h x (by simp)
    | cons y ys =>
      exact printable_append (h x (by simp))
        (printable_cons (by decide) (ih fun z hz => h z (List.mem_cons_of_mem _ hz)))

theorem printable_renderStr (s : String) : Printable (renderStr s) := by
  refine printable_cons (by decide) (printable_append ?_ (printable_cons (by decide) printable_nil))
  intro c hc
  obtain ⟨d, _, hd⟩ := List.mem_flatMap.mp hc
  exact printable_escape d c hd

theorem printable_decimal (n : ℕ) : Printable (decimal n) := by
  intro c hc
  have hd := toNat_of_isDigit (isDigit_of_mem_decimal hc)
  omega

theorem printable_render (v : Json) : Printable v.render := by
  induction v using Json.induct with
  | null => decide
  | bool b => cases b <;> decide
  | int n =>
    cases n with
    | ofNat n => exact printable_decimal n
    | negSucc n => exact printable_cons (by decide) (printable_decimal (n + 1))
  | str s => exact printable_renderStr s
  | arr xs ih =>
    rw [render, renderAll_eq_map]
    refine printable_cons (by decide) (printable_append (printable_joined ?_)
      (printable_cons (by decide) printable_nil))
    intro x hx
    obtain ⟨y, hy, rfl⟩ := List.mem_map.mp hx
    exact ih y hy
  | obj kvs ih =>
    rw [render, renderMembers_eq_map]
    refine printable_cons (by decide) (printable_append (printable_joined ?_)
      (printable_cons (by decide) printable_nil))
    intro x hx
    obtain ⟨kv, hkv, rfl⟩ := List.mem_map.mp hx
    exact printable_append (printable_renderStr kv.1) (printable_cons (by decide) (ih kv hkv))

/-- Loading the bytes of a dumped value gives the value. -/
theorem loads_dumps (v : Json) (hd : v.distinctKeys = true) (hi : v.shortInts = true) :
    loads (utf8 v.render) = .ok v.toObj := by
  have hp := printable_render v
  have hback := readsBack v hd hi (2 * (text v.render).length + 1) [] (by simp [text]) ends_nil
  have hskip := skipSpace_render v []
  rw [List.append_nil] at hback hskip
  rw [loads, detectEncoding_utf8 hp, Encoding.decode, decodeUtf8_utf8 hp]
  change loadsStr (text v.render) = _
  rw [loadsStr, hskip, hback]
  rfl

end Bytes

end Json
