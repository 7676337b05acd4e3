import Mathlib.Data.Int.Basic
import Ioka.Python.Text

/-! # Integers from text

`int()` of a string: white space and decimal digits of other scripts are brought to
ASCII, and what is left has to be a signed numeral whose digits may be grouped by
single underscores. A printed natural number is read back.
-/

namespace Python

/-- What the Unicode database says about a character. -/
structure UnicodeData where
  decimal : Char → Option (Fin 10)
  upper : Char → List Char
  isAlpha : Char → Bool

/-- The database restricted to ASCII. -/
def asciiData : UnicodeData where
  decimal c := if c.isDigit then some (.ofNat 10 (c.toNat - 48)) else none
  upper c := [c.toUpper]
  isAlpha c := c.isAlpha

/-- `c.isspace()` -/
def isSpace (c : Char) : Bool :=
  (9 ≤ c.toNat ∧ c.toNat ≤ 13) ∨ (28 ≤ c.toNat ∧ c.toNat ≤ 32) ∨
    c.toNat ∈ [0x85, 0xa0, 0x1680, 0x2028, 0x2029, 0x202f, 0x205f, 0x3000] ∨
    (0x2000 ≤ c.toNat ∧ c.toNat ≤ 0x200a)

/-- White space as C's `isspace` has it. -/
def isAsciiSpace (c : Char) : Bool := c = ' ' ∨ (9 ≤ c.toNat ∧ c.toNat ≤ 13)

/-- The most digits that a numeral may have. -/
def maxStrDigits : ℕ := 4300

/-- `_PyUnicode_TransformDecimalAndSpaceToASCII`; what is neither becomes a question mark. -/
def transformDecimalAndSpace (u : UnicodeData) (s : Str) : List Char :=
  match ascii? s with
  | some cs => cs
  | none => s.map fun
    | .scalar c =>
      if c.toNat < 127 then c
      else if isSpace c then ' '
      else match u.decimal c with
        | some d => d.val.digitChar
        | none => '?'
    | .surrogate _ => '?'

/-- The digits of a numeral, if none of its groups between underscores is empty. -/
def digitGroups (cs : List Char) : Option (List Char) :=
  if (cs.splitOn '_').all (· ≠ []) then some (cs.filter (· ≠ '_')) else none

/-- A numeral behind its sign, up to the end of the text. -/
def unsignedFromString (cs : List Char) : Except Exc ℕ :=
  match digitGroups (cs.takeWhile fun c => c.isDigit || c = '_') with
  | none => .error .valueError
  | some digits =>
    let rest := cs.dropWhile fun c => c.isDigit || c = '_'
    if maxStrDigits < digits.length ∨ rest.dropWhile isAsciiSpace ≠ [] then .error .valueError
    else .ok (Nat.ofDigitChars 10 digits 0)

/-- `PyLong_FromString` in base ten. -/
def longFromString (cs : List Char) : Except Exc ℤ :=
  match cs.dropWhile isAsciiSpace with
  | '+' :: cs => (unsignedFromString cs).map Int.ofNat
  | '-' :: cs => (unsignedFromString cs).map fun n => -Int.ofNat n
  | cs => (unsignedFromString cs).map Int.ofNat

/-- `int(s)` -/
def int (u : UnicodeData) (s : Str) : Except Exc ℤ := longFromString (transformDecimalAndSpace u s)

/-- `str(n)` of a natural number. -/
def decimal (n : ℕ) : List Char := Nat.toDigits 10 n

section Digits

theorem isDigit_of_mem_decimal {n : ℕ} {c : Char} (h : c ∈ decimal n) : c.isDigit = true :=
  Nat.isDigit_of_mem_toDigits (by decide) (by decide) h

theorem toNat_of_isDigit {c : Char} (h : c.isDigit = true) : 48 ≤ c.toNat ∧ c.toNat ≤ 57 := by
  rw [Char.isDigit, Bool.and_eq_true, decide_eq_true_eq, decide_eq_true_eq] at h
  exact ⟨UInt32.le_iff_toNat_le.mp h.1, UInt32.le_iff_toNat_le.mp h.2⟩

theorem ne_of_isDigit {c d : Char} (h : c.isDigit = true) (hd : d.isDigit = false) : c ≠ d := by
  rintro rfl
  rw [h] at hd
  cases hd

theorem exists_decimal (n : ℕ) : ∃ c cs, decimal n = c :: cs ∧ c.isDigit = true := by
  cases h : decimal n with
  | nil => exact absurd h Nat.toDigits_ne_nil
  | cons c cs => exact ⟨c, cs, rfl, isDigit_of_mem_decimal (h ▸ List.mem_cons_self)⟩

theorem digitGroups_of_digits {cs : List Char} (hne : cs ≠ []) (h : ∀ c ∈ cs, c.isDigit = true) :
    digitGroups cs = some cs := by
  have hno : '_' ∉ cs := fun hm => absurd (h _ hm) (by decide)
  rw [digitGroups, List.splitOn_eq_singleton hno, if_pos (by simpa using hne),
    List.filter_eq_self.mpr]
  intro c hc
  simpa using ne_of_isDigit (h c hc) (by decide)

/-- Digits alone are read as the number they denote. -/
theorem unsignedFromString_of_digits {cs : List Char} (hne : cs ≠ [])
    (h : ∀ c ∈ cs, c.isDigit = true) (hlen : cs.length ≤ maxStrDigits) :
    unsignedFromString cs = .ok (Nat.ofDigitChars 10 cs 0) := by
  have hall : ∀ d ∈ cs, (d.isDigit || decide (d = '_')) = true := by
    intro d hd
    rw [h d hd, Bool.true_or]
  rw [unsignedFromString, List.takeWhile_eq_self_iff.mpr hall, List.dropWhile_eq_nil_iff.mpr hall,
    digitGroups_of_digits hne h]
  simp [hlen]

theorem longFromString_of_digits {cs : List Char} (hne : cs ≠ [])
    (h : ∀ c ∈ cs, c.isDigit = true) (hlen : cs.length ≤ maxStrDigits) :
    longFromString cs = .ok (Nat.ofDigitChars 10 cs 0 : ℤ) := by
  obtain ⟨c, r, rfl⟩ := List.exists_cons_of_ne_nil hne
  have hc := h c List.mem_cons_self
  have hspace : isAsciiSpace c = false := by
    have hn := toNat_of_isDigit hc
    have hne : c ≠ ' ' := ne_of_isDigit hc (by decide)
    simp [isAsciiSpace, hne]
    omega
  rw [longFromString, List.dropWhile_cons_of_neg (by simp [hspace])]
  split
  · rename_i he
    cases he
    cases hc
  · rename_i he
    cases he
    cases hc
  · rw [unsignedFromString_of_digits hne h hlen]
    rfl

theorem int_decimal (u : UnicodeData) {n : ℕ} (hlen : (decimal n).length ≤ maxStrDigits) :
    int u (text (decimal n)) = .ok n := by
  have hascii : ∀ c ∈ decimal n, c.toNat < 128 := by
    intro c hc
    have := toNat_of_isDigit (isDigit_of_mem_decimal hc)
    omega
  have hcs : transformDecimalAndSpace u (text (decimal n)) = decimal n := by
    rw [transformDecimalAndSpace, ascii?_text hascii]
  have hne : decimal n ≠ [] := Nat.toDigits_ne_nil
  rw [int, hcs, longFromString_of_digits hne (fun _ => isDigit_of_mem_decimal) hlen, decimal,
    Nat.ofDigitChars_ten_toDigits]

end Digits

section Errors

variable {e : Exc}

theorem unsignedFromString_eq_error {cs : List Char} (h : unsignedFromString cs = .error e) :
    e = .valueError := by
  unfold unsignedFromString at h
  split at h
  · cases h
    rfl
  · simp only at h
    split at h
    · cases h
      rfl
    · cases h

theorem int_eq_error {u : UnicodeData} {s : Str} (h : int u s = .error e) : e = .valueError := by
  have hmap {f : ℕ → ℤ} {cs : List Char} (h : (unsignedFromString cs).map f = .error e) :
      e = .valueError := by
    cases hu : unsignedFromString cs with
    | ok n =>
      rw [hu] at h
      cases h
    | error e' =>
      rw [hu] at h
      cases h
      exact unsignedFromString_eq_error hu
  unfold int longFromString at h
  split at h <;> exact hmap h

end Errors

end Python
