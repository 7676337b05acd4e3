import Mathlib.Data.List.Basic
import Mathlib.Data.List.DropRight

/-! # Python strings

A string is a list of code points, of which some may be surrogates without a
scalar value. Strings of scalar values have a UTF-8 encoding that determines them.
-/

namespace Python

/-- A scalar value, or one of the surrogates from `U+D800` on. -/
inductive CodePoint
  | scalar (c : Char)
  | surrogate (n : Fin 2048)
  deriving DecidableEq

abbrev Str := List CodePoint

abbrev Bytes := List UInt8

/-- The exceptions of the library functions. -/
inductive Exc
  | typeError
  | valueError
  /-- A subclass of `ValueError`. -/
  | binasciiError
  /-- A subclass of `ValueError`. -/
  | unicodeEncodeError
  /-- A subclass of `ValueError`. -/
  | unicodeDecodeError
  /-- A subclass of `ValueError`. -/
  | jsonDecodeError
  | overflowError
  | attributeError
  | recursionError
  deriving DecidableEq

/-- `isinstance(exc, ValueError)` -/
def Exc.isValueError : Exc → Bool
  | .valueError | .binasciiError | .unicodeEncodeError | .unicodeDecodeError
  | .jsonDecodeError => true
  | .typeError | .overflowError | .attributeError | .recursionError => false

/-- A string of scalar values as Python's. -/
def text (cs : List Char) : Str := cs.map .scalar

def str (s : String) : Str := text s.toList

def CodePoint.scalar? : CodePoint → Option Char
  | .scalar c => some c
  | .surrogate _ => none

/-- The scalar values of a string without surrogates. -/
def scalars? (s : Str) : Option (List Char) := s.mapM CodePoint.scalar?

def utf8 (cs : List Char) : Bytes := cs.flatMap String.utf8EncodeChar

/-- `s.encode()` -/
def encode (s : Str) : Except Exc Bytes :=
  match scalars? s with
  | some cs => .ok (utf8 cs)
  | none => .error .unicodeEncodeError

/-- The characters of a string in ASCII. -/
def ascii? (s : Str) : Option (List Char) :=
  (scalars? s).filter fun cs => cs.all fun c => c.toNat < 128

/-- `s.split(sep)` for one character. -/
def split (sep : Char) (s : Str) : List Str := s.splitOn (.scalar sep)

/-- `s.split(sep, maxsplit)` for one character. -/
def splitMax (sep : Char) : ℕ → Str → List Str
  | 0, s => [s]
  | maxsplit + 1, s =>
    if .scalar sep ∈ s then
      s.takeWhile (· ≠ .scalar sep) ::
        splitMax sep maxsplit (s.dropWhile (· ≠ .scalar sep)).tail
    else [s]

section Encoding

theorem scalar_injective : Function.Injective CodePoint.scalar := fun _ _ h => by cases h; rfl

theorem text_injective : Function.Injective text := scalar_injective.list_map

theorem str_injective : Function.Injective str :=
  fun _ _ h => String.toList_injective (text_injective h)

@[simp] theorem text_append (cs ds : List Char) : text (cs ++ ds) = text cs ++ text ds :=
  List.map_append

@[simp] theorem scalar_mem_text {c : Char} {cs : List Char} : .scalar c ∈ text cs ↔ c ∈ cs := by
  simp [text]

@[simp] theorem scalars?_text (cs : List Char) : scalars? (text cs) = some cs := by
  induction cs with
  | nil => rfl
  | cons c cs ih =>
    have hc : scalars? (text (c :: cs)) = (scalars? (text cs)).map (c :: ·) := by
      simp only [scalars?, text, List.map_cons, List.mapM_cons, CodePoint.scalar?]
      cases List.mapM CodePoint.scalar? (List.map .scalar cs) <;> rfl
    rw [hc, ih]
    rfl

theorem scalars?_eq_some {s : Str} {cs : List Char} : scalars? s = some cs ↔ s = text cs := by
  constructor
  · intro h
    induction s generalizing cs with
    | nil =>
      cases h
      rfl
    | cons c s ih =>
      simp only [scalars?, List.mapM_cons, Option.bind_eq_bind, Option.pure_def,
        Option.bind_eq_some_iff] at h
      obtain ⟨d, hd, ds, hds, he⟩ := h
      cases he
      cases c with
      | scalar c =>
        cases hd
        rw [ih hds]
        rfl
      | surrogate n => cases hd
  · rintro rfl
    exact scalars?_text cs

theorem ascii?_text {cs : List Char} (h : ∀ c ∈ cs, c.toNat < 128) :
    ascii? (text cs) = some cs := by
  rw [ascii?, scalars?_text, Option.filter_some, if_pos]
  simpa using h

theorem encode_text (cs : List Char) : encode (text cs) = .ok (utf8 cs) := by
  rw [encode, scalars?_text]

theorem encode_eq_ok {s : Str} {b : Bytes} :
    encode s = .ok b ↔ ∃ cs, s = text cs ∧ utf8 cs = b := by
  constructor
  · intro h
    unfold encode at h
    split at h
    · rename_i cs hcs
      cases h
      exact ⟨cs, scalars?_eq_some.mp hcs, rfl⟩
    · cases h
  · rintro ⟨cs, rfl, rfl⟩
    exact encode_text cs

theorem encode_eq_error {s : Str} {e : Exc} (h : encode s = .error e) :
    e = .unicodeEncodeError := by
  unfold encode at h
  split at h
  · cases h
  · cases h
    rfl

theorem utf8_injective : Function.Injective utf8 := by
  intro cs ds h
  have hb : (String.ofList cs).toByteArray = (String.ofList ds).toByteArray :=
    congrArg List.toByteArray h
  exact String.ofList_injective (String.toByteArray_inj.mp hb)

theorem encode_inj {s t : Str} {b : Bytes} (hs : encode s = .ok b) (ht : encode t = .ok b) :
    s = t := by
  obtain ⟨cs, rfl, hcs⟩ := encode_eq_ok.mp hs
  obtain ⟨ds, rfl, hds⟩ := encode_eq_ok.mp ht
  rw [utf8_injective (hcs.trans hds.symm)]

end Encoding

section Splitting

variable {sep : Char}

theorem splitMax_append {maxsplit : ℕ} {s : Str} (hs : .scalar sep ∉ s) (t : Str) :
    splitMax sep (maxsplit + 1) (s ++ .scalar sep :: t) = s :: splitMax sep maxsplit t := by
  have hne : ∀ c ∈ s, decide (c ≠ .scalar sep) = true := by
    intro c hc
    rw [decide_eq_true_eq]
    rintro rfl
    exact hs hc
  rw [splitMax, if_pos (by simp), List.takeWhile_append_of_pos hne,
    List.dropWhile_append_of_pos hne,
    List.takeWhile_cons_of_neg (by simp), List.dropWhile_cons_of_neg (by simp), List.append_nil,
    List.tail_cons]

end Splitting

end Python
