import Ioka.Python.Double
import Ioka.Python.Numerals

/-! # Objects

The Python values that a JSON text can stand for, and the operations on them that a
caller may try before knowing what they are.
-/

namespace Python

inductive Obj where
  | none
  | bool (b : Bool)
  | int (n : ℤ)
  | float (x : Double)
  | str (s : Str)
  | list (xs : List Obj)
  | dict (kvs : List (Str × Obj))
  deriving Inhabited

/-- The members of a `dict`, in the order of their keys' first insertion. -/
abbrev Dict := List (Str × Obj)

/-- `d[key] = value` -/
def setItem (d : Dict) (key : Str) (value : Obj) : Dict :=
  if d.any (·.1 = key) then d.map fun kv => if kv.1 = key then (key, value) else kv
  else d ++ [(key, value)]

namespace Obj

/-- The `dict` whose methods a caller may use. -/
def asDict : Obj → Except Exc Dict
  | .dict kvs => .ok kvs
  | _ => .error .attributeError

/-- `x == s` for a string -/
def isStr (x : Option Obj) (s : Str) : Bool :=
  match x with
  | some (.str t) => t = s
  | _ => false

/-- `bool(x)` -/
def truthy : Obj → Bool
  | .none => false
  | .bool b => b
  | .int n => n ≠ 0
  | .float (.finite q) => q ≠ 0
  | .float _ => true
  | .str s => s ≠ []
  | .list xs => !xs.isEmpty
  | .dict kvs => !kvs.isEmpty

/-- `int(x)` -/
def toInt (u : UnicodeData) : Obj → Except Exc ℤ
  | .bool b => .ok (if b then 1 else 0)
  | .int n => .ok n
  | .float x => x.toInt
  | .str s => Python.int u s
  | _ => .error .typeError

end Obj

/-- `d.get(key)` -/
def get (d : Dict) (key : String) : Option Obj := d.lookup (str key)

theorem setItem_of_notMem {d : Dict} {key : Str} {value : Obj} (h : key ∉ d.map (·.1)) :
    setItem d key value = d ++ [(key, value)] := by
  rw [setItem, if_neg]
  simpa using h

end Python
