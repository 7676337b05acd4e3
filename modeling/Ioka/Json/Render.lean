import Mathlib.Data.List.Sort
import Mathlib.Data.Int.Basic

/-! # JSON values and their compact text

The printer follows Python's `json.dumps` with the separators `,` and `:`.
Strings are escaped to ASCII, a character outside the basic plane as a
surrogate pair, and sorting the keys orders every nested object by code points.
-/

inductive Json where
  | null
  | bool (b : Bool)
  | int (n : ℤ)
  | str (s : String)
  | arr (xs : List Json)
  | obj (kvs : List (String × Json))
  deriving Inhabited

namespace Json

/-- Induction that reaches into arrays and objects. -/
theorem induct {P : Json → Prop} (null : P .null) (bool : ∀ b, P (.bool b))
    (int : ∀ n, P (.int n)) (str : ∀ s, P (.str s))
    (arr : ∀ xs, (∀ x ∈ xs, P x) → P (.arr xs))
    (obj : ∀ kvs, (∀ kv ∈ kvs, P kv.2) → P (.obj kvs)) : ∀ v, P v
  | .null => null
  | .bool b => bool b
  | .int n => int n
  | .str s => str s
  | .arr xs => arr xs fun x _ => induct null bool int str arr obj x
  | .obj kvs => obj kvs fun kv _ => induct null bool int str arr obj kv.2
termination_by v => sizeOf v
decreasing_by
  · rename_i h
    have := List.sizeOf_lt_of_mem h
    simp only [Json.arr.sizeOf_spec]
    omega
  · rename_i h
    have h₁ := List.sizeOf_lt_of_mem h
    have h₂ : sizeOf kv.2 < sizeOf kv := by cases kv; simp only [Prod.mk.sizeOf_spec]; omega
    simp only [Json.obj.sizeOf_spec]
    omega

/-- A lower-case hexadecimal digit. -/
def hexDigit (n : ℕ) : Char :=
  if n < 10 then Char.ofNat (48 + n) else Char.ofNat (87 + n)

/-- Four hexadecimal digits, as `'{:04x}'` formats a number below `65536`. -/
def hex4 (n : ℕ) : List Char :=
  [hexDigit (n / 4096 % 16), hexDigit (n / 256 % 16), hexDigit (n / 16 % 16), hexDigit (n % 16)]

/-- The escape of one character in an ASCII JSON string. -/
def escape (c : Char) : List Char :=
  if c = '"' then ['\\', '"']
  else if c = '\\' then ['\\', '\\']
  else if c.toNat = 8 then ['\\', 'b']
  else if c.toNat = 9 then ['\\', 't']
  else if c.toNat = 10 then ['\\', 'n']
  else if c.toNat = 12 then ['\\', 'f']
  else if c.toNat = 13 then ['\\', 'r']
  else if 32 ≤ c.toNat ∧ c.toNat ≤ 126 then [c]
  else if c.toNat < 65536 then '\\' :: 'u' :: hex4 c.toNat
  else
    '\\' :: 'u' :: (hex4 (0xd800 + (c.toNat - 65536) / 1024) ++
      '\\' :: 'u' :: hex4 (0xdc00 + (c.toNat - 65536) % 1024))

def renderStr (s : String) : List Char :=
  '"' :: (s.toList.flatMap escape ++ ['"'])

def renderInt : ℤ → List Char
  | .ofNat n => Nat.toDigits 10 n
  | .negSucc n => '-' :: Nat.toDigits 10 (n + 1)

/-- Pieces separated by commas. -/
def joined : List (List Char) → List Char
  | [] => []
  | [x] => x
  | x :: y :: xs => x ++ ',' :: joined (y :: xs)

mutual

def render : Json → List Char
  | .null => ['n', 'u', 'l', 'l']
  | .bool true => ['t', 'r', 'u', 'e']
  | .bool false => ['f', 'a', 'l', 's', 'e']
  | .int n => renderInt n
  | .str s => renderStr s
  | .arr xs => '[' :: (joined (renderAll xs) ++ [']'])
  | .obj kvs => '{' :: (joined (renderMembers kvs) ++ ['}'])

def renderAll : List Json → List (List Char)
  | [] => []
  | x :: xs => render x :: renderAll xs

def renderMembers : List (String × Json) → List (List Char)
  | [] => []
  | (k, x) :: kvs => (renderStr k ++ ':' :: render x) :: renderMembers kvs

end

/-- An object member as it is printed. -/
def renderMember (kv : String × Json) : List Char := renderStr kv.1 ++ ':' :: render kv.2

theorem renderAll_eq_map (xs : List Json) : renderAll xs = xs.map render := by
  induction xs with
  | nil => rfl
  | cons x xs ih => simp [renderAll, ih]

theorem renderMembers_eq_map (kvs : List (String × Json)) :
    renderMembers kvs = kvs.map renderMember := by
  induction kvs with
  | nil => rfl
  | cons kv kvs ih => simp [renderMembers, renderMember, ih]

mutual

/-- Order the members of every nested object by key. -/
def sortKeys : Json → Json
  | .arr xs => .arr (sortAll xs)
  | .obj kvs => .obj ((sortMembers kvs).insertionSort fun x y => x.1 ≤ y.1)
  | v => v

def sortAll : List Json → List Json
  | [] => []
  | x :: xs => sortKeys x :: sortAll xs

def sortMembers : List (String × Json) → List (String × Json)
  | [] => []
  | (k, x) :: kvs => (k, sortKeys x) :: sortMembers kvs

end

/-- `json.dumps` with the compact separators. -/
def dumps (v : Json) : String := String.ofList v.render

/-- `json.dumps` with the compact separators and sorted keys. -/
def canonical (v : Json) : String := v.sortKeys.dumps

example : canonical (.obj [("b", .str "é\n"), ("a", .arr [.int (-3), .null])]) =
    "\x7b\"a\":[-3,null],\"b\":\"\\u00e9\\n\"\x7d" := by decide

/-- The member of an object under a key, as `dict.get` reads it. -/
def member? (key : String) : Json → Option Json
  | obj kvs => kvs.lookup key
  | _ => none

end Json
