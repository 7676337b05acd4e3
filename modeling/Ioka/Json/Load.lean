import Ioka.Python.Codecs
import Ioka.Python.Object

/-! # Parsing JSON

`json.loads` of bytes, as the scanner of the standard library reads them: strict
strings, surrogate pairs joined, the constants `NaN` and `Infinity`, and the last of
several members under one key. The recursion takes twice the text's length as its fuel,
and would end with a `RecursionError` without it.
-/

namespace Python

def isJsonSpace (c : CodePoint) : Bool :=
  c = .scalar ' ' || c = .scalar '\t' || c = .scalar '\n' || c = .scalar '\r'

def skipSpace (s : Str) : Str := s.dropWhile isJsonSpace

section Strings

def hexDigit? : CodePoint → Option ℕ
  | .scalar c =>
    if '0' ≤ c ∧ c ≤ '9' then some (c.toNat - 48)
    else if 'a' ≤ c ∧ c ≤ 'f' then some (c.toNat - 87)
    else if 'A' ≤ c ∧ c ≤ 'F' then some (c.toNat - 55)
    else none
  | .surrogate _ => none

/-- Four hexadecimal digits. -/
def hex4? : Str → Option (ℕ × Str)
  | a :: b :: c :: d :: r => do
    return ((((← hexDigit? a) * 16 + (← hexDigit? b)) * 16 + (← hexDigit? c)) * 16 +
      (← hexDigit? d), r)
  | _ => none

/-- What a backslash and a letter other than `u` stand for. -/
def simpleEscape? (c : Char) : Option Char :=
  if c = '"' ∨ c = '\\' ∨ c = '/' then some c
  else if c = 'b' then some (Char.ofNat 8)
  else if c = 'f' then some (Char.ofNat 12)
  else if c = 'n' then some (Char.ofNat 10)
  else if c = 'r' then some (Char.ofNat 13)
  else if c = 't' then some (Char.ofNat 9)
  else none

/-- The second half of a pair of surrogates, if one follows. -/
def scanLowSurrogate (high : ℕ) (r : Str) : Except Exc (CodePoint × Str) :=
  match r with
  | .scalar '\\' :: .scalar 'u' :: r' =>
    match hex4? r' with
    | none => .error .jsonDecodeError
    | some (low, r'') =>
      if isLowSurrogate low then .ok (joinSurrogates high low, r'') else .ok (.ofNat high, r)
  | _ => .ok (.ofNat high, r)

/-- An escape, behind its backslash. -/
def scanEscape : Str → Except Exc (CodePoint × Str)
  | .scalar 'u' :: r =>
    match hex4? r with
    | none => .error .jsonDecodeError
    | some (n, r) => if isHighSurrogate n then scanLowSurrogate n r else .ok (.ofNat n, r)
  | .scalar c :: r =>
    match simpleEscape? c with
    | some d => .ok (.scalar d, r)
    | none => .error .jsonDecodeError
  | _ => .error .jsonDecodeError

def isControl : CodePoint → Bool
  | .scalar c => c.toNat < 32
  | .surrogate _ => false

/-- A string, behind its opening quote. -/
def scanString : ℕ → Str → Except Exc (Str × Str)
  | 0, _ => .error .recursionError
  | _ + 1, [] => .error .jsonDecodeError
  | fuel + 1, c :: r =>
    if c = .scalar '"' then .ok ([], r)
    else if c = .scalar '\\' then do
      let (d, r) ← scanEscape r
      let (s, r) ← scanString fuel r
      return (d :: s, r)
    else if isControl c then .error .jsonDecodeError
    else do
      let (s, r) ← scanString fuel r
      return (c :: s, r)

end Strings

section Numbers

/-- The digits at the front of a text. -/
def digitRun : Str → List Char × Str
  | .scalar c :: r =>
    if c.isDigit then (c :: (digitRun r).1, (digitRun r).2) else ([], .scalar c :: r)
  | r => ([], r)

/-- A point with digits behind it. -/
def scanFraction : Str → List Char × Str
  | .scalar '.' :: r =>
    if (digitRun r).1 = [] then ([], .scalar '.' :: r) else digitRun r
  | r => ([], r)

/-- A sign, which is a minus, or none. -/
def scanSign : Str → Bool × Str
  | .scalar '-' :: r => (true, r)
  | .scalar '+' :: r => (false, r)
  | r => (false, r)

/-- An exponent, if there is a complete one. -/
def scanExponent (s : Str) : Option ℤ × Str :=
  match s with
  | c :: r =>
    if c = .scalar 'e' ∨ c = .scalar 'E' then
      let (negative, r') := scanSign r
      let (digits, r'') := digitRun r'
      if digits = [] then (none, s)
      else
        let n := Nat.ofDigitChars 10 digits 0
        (some (if negative then -n else n), r'')
    else (none, s)
  | [] => (none, s)

/-- A number of digits before the point, digits behind it and a power of ten. -/
def decimalValue (negative : Bool) (whole fraction : List Char) (exponent : ℤ) : ℚ :=
  let n : ℚ := Nat.ofDigitChars 10 (whole ++ fraction) 0
  (if negative then -n else n) * (10 : ℚ) ^ (exponent - fraction.length)

/-- The rest of a number, behind the digits of its whole part. -/
def scanNumberRest (negative : Bool) (whole : List Char) (r : Str) : Except Exc (Obj × Str) :=
  let (fraction, r₁) := scanFraction r
  let (exponent, r₂) := scanExponent r₁
  if fraction = [] ∧ exponent = none then
    if maxStrDigits < whole.length then .error .valueError
    else
      let n : ℤ := Nat.ofDigitChars 10 whole 0
      .ok (.int (if negative then -n else n), r₂)
  else .ok (.float (.ofRat (decimalValue negative whole fraction (exponent.getD 0))), r₂)

/-- A number behind its sign; a zero is a whole part of its own. -/
def scanUnsigned (negative : Bool) (s : Str) : Except Exc (Obj × Str) :=
  match s with
  | .scalar '0' :: r => scanNumberRest negative ['0'] r
  | _ =>
    let (whole, r) := digitRun s
    if whole = [] then .error .jsonDecodeError else scanNumberRest negative whole r

/-- `_match_number` -/
def scanNumber : Str → Except Exc (Obj × Str)
  | .scalar '-' :: r => scanUnsigned true r
  | s => scanUnsigned false s

end Numbers

section Values

/-- A constant, if the text begins with its name. -/
def scanConstant (s : Str) : Option (Obj × Str) :=
  let names : List (String × Obj) := [("null", .none), ("true", .bool true), ("false", .bool false),
    ("NaN", .float .nan), ("Infinity", .float (.inf false)), ("-Infinity", .float (.inf true))]
  names.findSome? fun (name, value) =>
    if str name <+: s then some (value, s.drop name.length) else none

mutual

/-- `scan_once` -/
def scanOnce : ℕ → Str → Except Exc (Obj × Str)
  | 0, _ => .error .recursionError
  | _ + 1, [] => .error .jsonDecodeError
  | fuel + 1, c :: r =>
    if c = .scalar '"' then do
      let (s, r) ← scanString fuel r
      return (.str s, r)
    else if c = .scalar '\x7b' then
      match skipSpace r with
      | .scalar '\x7d' :: r => .ok (.dict [], r)
      | r => scanMembers fuel [] r
    else if c = .scalar '[' then
      match skipSpace r with
      | .scalar ']' :: r => .ok (.list [], r)
      | r => scanElements fuel [] r
    else match scanConstant (c :: r) with
      | some result => .ok result
      | none => scanNumber (c :: r)

/-- The members of an object from a key on, behind those read before. -/
def scanMembers : ℕ → Dict → Str → Except Exc (Obj × Str)
  | 0, _, _ => .error .recursionError
  | _ + 1, _, [] => .error .jsonDecodeError
  | fuel + 1, members, c :: r =>
    if c = .scalar '"' then do
      let (key, r) ← scanString fuel r
      match skipSpace r with
      | .scalar ':' :: r =>
        let (value, r) ← scanOnce fuel (skipSpace r)
        match skipSpace r with
        | .scalar '\x7d' :: r => return (.dict (setItem members key value), r)
        | .scalar ',' :: r => scanMembers fuel (setItem members key value) (skipSpace r)
        | _ => throw .jsonDecodeError
      | _ => throw .jsonDecodeError
    else .error .jsonDecodeError

/-- The elements of an array, behind those read before. -/
def scanElements : ℕ → List Obj → Str → Except Exc (Obj × Str)
  | 0, _, _ => .error .recursionError
  | fuel + 1, elements, r => do
    let (value, r) ← scanOnce fuel r
    match skipSpace r with
    | .scalar ']' :: r => return (.list (elements ++ [value]), r)
    | .scalar ',' :: r => scanElements fuel (elements ++ [value]) (skipSpace r)
    | _ => throw .jsonDecodeError

end

/-- `json.loads(s)` of a text. -/
def loadsStr (s : Str) : Except Exc Obj := do
  let (value, r) ← scanOnce (2 * s.length + 1) (skipSpace s)
  if skipSpace r = [] then return value else throw .jsonDecodeError

/-- `json.loads(b)` of bytes. -/
def loads (b : Bytes) : Except Exc Obj := do loadsStr (← (detectEncoding b).decode b)

end Values

end Python
