import Mathlib.Algebra.BigOperators.Group.List.Basic
import Mathlib.Algebra.Ring.Int.Defs
import Ioka.Python.Numerals

/-! # Stripping and upper-casing

`strip()` and `upper()` of a text without surrogates, with what each does to its
length: the white space at the ends is lost, and a character may have several in
upper case.
-/

namespace Python

/-- `s.strip()` -/
def strip (cs : List Char) : List Char := (cs.dropWhile isSpace).rdropWhile isSpace

/-- `s.upper()` -/
def upper (u : UnicodeData) (cs : List Char) : List Char := cs.flatMap u.upper

/-- `s.isalpha()` -/
def isAlpha (u : UnicodeData) (cs : List Char) : Bool := cs ≠ [] && cs.all u.isAlpha

/-- The number of white space characters at the two ends. -/
def outerSpace (cs : List Char) : ℕ :=
  (cs.takeWhile isSpace).length + ((cs.dropWhile isSpace).rtakeWhile isSpace).length

/-- The number of characters that upper case adds between the ends. -/
def gained (u : UnicodeData) (cs : List Char) : ℤ :=
  ((strip cs).map fun c => ((u.upper c).length : ℤ) - 1).sum

section Length

variable (u : UnicodeData) (cs : List Char)

theorem length_strip : (strip cs).length + outerSpace cs = cs.length := by
  have hfront := congrArg List.length (List.takeWhile_append_dropWhile (p := isSpace) (l := cs))
  have hback := congrArg List.length
    (List.rdropWhile_append_rtakeWhile (p := isSpace) (l := cs.dropWhile isSpace))
  rw [List.length_append] at hfront hback
  unfold strip outerSpace
  omega

theorem length_upper : ((upper u cs).length : ℤ) =
    cs.length + (cs.map fun c => ((u.upper c).length : ℤ) - 1).sum := by
  induction cs with
  | nil => rfl
  | cons c cs ih =>
    rw [upper, List.flatMap_cons, List.length_append, ← upper, List.map_cons, List.sum_cons,
      List.length_cons]
    omega

theorem length_upper_strip :
    ((upper u (strip cs)).length : ℤ) + outerSpace cs = cs.length + gained u cs := by
  have hstrip := length_strip cs
  rw [length_upper, gained]
  omega

end Length

end Python
