import Mathlib.Data.Fin.Basic
import Mathlib.Data.List.Basic

/-! # Base64

Three octets are written as four symbols of six bits, and a shorter last group is
padded. The decoder is the lenient one that skips foreign symbols and stops at the
padding; it reads back whatever the encoder writes.
-/

namespace Base64

/-- Sixty-four symbols and a pad that is none of them. -/
structure Alphabet (α : Type*) where
  symbol : Fin 64 → α
  pad : α
  value : α → Option (Fin 64)
  value_symbol : ∀ i, value (symbol i) = some i
  value_pad : value pad = none

inductive DecodeError
  | incorrectPadding
  /-- The number of data characters is one more than a multiple of four. -/
  | dataCharacters
  deriving DecidableEq

/-- Six bits as a number. -/
def sextet (n : ℕ) : Fin 64 := .ofNat 64 n

/-- The octets six bits at a time, the last group filled up with zeros. -/
def sextets : List UInt8 → List (Fin 64)
  | [] => []
  | [a] => [sextet (a.toNat / 4), sextet (a.toNat % 4 * 16)]
  | [a, b] => [sextet (a.toNat / 4), sextet (a.toNat % 4 * 16 + b.toNat / 16),
      sextet (b.toNat % 16 * 4)]
  | a :: b :: c :: r => sextet (a.toNat / 4) :: sextet (a.toNat % 4 * 16 + b.toNat / 16) ::
      sextet (b.toNat % 16 * 4 + c.toNat / 64) :: sextet (c.toNat % 64) :: sextets r

/-- The pads that fill up a last group. -/
def padding (octets : ℕ) : ℕ := (3 - octets % 3) % 3

variable {α : Type*}

namespace Alphabet

variable (A : Alphabet α)

def encode (b : List UInt8) : List α :=
  (sextets b).map A.symbol ++ List.replicate (padding b.length) A.pad

/-- The octet that a symbol completes, and its bits that are left for the next one. -/
def emit (quadPos leftchar : ℕ) (v : Fin 64) : Option UInt8 × ℕ :=
  match quadPos with
  | 0 => (none, v)
  | 1 => (some (.ofNat (leftchar * 4 + v / 16)), v % 16)
  | 2 => (some (.ofNat (leftchar * 16 + v / 4)), v % 4)
  | _ => (some (.ofNat (leftchar * 64 + v)), 0)

variable [DecidableEq α]

/-- The rest of the octets, after `quadPos` symbols of a group and `pads` pads. -/
def decodeFrom : (quadPos leftchar pads : ℕ) → List α → Except DecodeError (List UInt8)
  | quadPos, _, _, [] =>
    if quadPos = 0 then .ok []
    else if quadPos = 1 then .error .dataCharacters
    else .error .incorrectPadding
  | quadPos, leftchar, pads, c :: cs =>
    if c = A.pad then
      -- nothing after enough padding is read
      if 2 ≤ quadPos ∧ 4 ≤ quadPos + (pads + 1) then .ok []
      else decodeFrom quadPos leftchar (if 2 ≤ quadPos then pads + 1 else pads) cs
    else match A.value c with
      | none => decodeFrom quadPos leftchar pads cs
      | some v => do
        let (octet, left) := emit quadPos leftchar v
        let rest ← decodeFrom ((quadPos + 1) % 4) left 0 cs
        return octet.toList ++ rest

def decode (cs : List α) : Except DecodeError (List UInt8) := A.decodeFrom 0 0 0 cs

end Alphabet

section Lengths

theorem length_sextets (b : List UInt8) : (sextets b).length = (4 * b.length + 2) / 3 := by
  induction b using sextets.induct with
  | case1 => simp [sextets]
  | case2 a => simp [sextets]
  | case3 a b => simp [sextets]
  | case4 a b c r ih =>
    simp only [sextets, List.length_cons, ih]
    omega

theorem padding_eq (b : List UInt8) :
    padding b.length = (4 - (sextets b).length % 4) % 4 := by
  rw [length_sextets, padding]
  have hr : b.length % 3 = 0 ∨ b.length % 3 = 1 ∨ b.length % 3 = 2 := by omega
  rcases hr with hr | hr | hr <;> omega

end Lengths

namespace Alphabet

section Groups

theorem emit_zero (l : ℕ) (v : Fin 64) : emit 0 l v = (none, v.val) := rfl

theorem octet_eq {n : ℕ} {a : UInt8} (h : n = a.toNat) : UInt8.ofNat n = a := by
  rw [h, UInt8.ofNat_toNat]

theorem val_sextet {n : ℕ} (h : n < 64) : (sextet n).val = n := Nat.mod_eq_of_lt h

theorem emit_first (a : UInt8) {n x : ℕ} (hx : x < 16) (hn : n = a.toNat % 4 * 16 + x) :
    emit 1 (sextet (a.toNat / 4)).val (sextet n) = (some a, x) := by
  have ha := a.toNat_lt
  rw [emit, val_sextet (by omega), val_sextet (by omega), octet_eq (a := a) (by omega)]
  congr 1
  omega

theorem emit_second (b : UInt8) {n x : ℕ} (hx : x < 4) (hn : n = b.toNat % 16 * 4 + x) :
    emit 2 (b.toNat / 16) (sextet n) = (some b, x) := by
  have hb := b.toNat_lt
  rw [emit, val_sextet (by omega), octet_eq (a := b) (by omega)]
  congr 1
  omega

theorem emit_third (c : UInt8) :
    emit 3 (c.toNat / 64) (sextet (c.toNat % 64)) = (some c, 0) := by
  have hc := c.toNat_lt
  have hv : c.toNat / 64 * 64 + (sextet (c.toNat % 64)).val = c.toNat := by
    rw [val_sextet (by omega)]
    omega
  exact congrArg (fun a => (some a, 0)) (octet_eq hv)

end Groups

variable (A : Alphabet α)

theorem symbol_ne_pad (i : Fin 64) : A.symbol i ≠ A.pad := by
  intro h
  have hv := congrArg A.value h
  rw [A.value_symbol, A.value_pad] at hv
  cases hv

variable [DecidableEq α]

theorem decodeFrom_symbol (quadPos leftchar pads : ℕ) (v : Fin 64) (cs : List α) :
    A.decodeFrom quadPos leftchar pads (A.symbol v :: cs) = (do
      let rest ← A.decodeFrom ((quadPos + 1) % 4) (emit quadPos leftchar v).2 0 cs
      return (emit quadPos leftchar v).1.toList ++ rest) := by
  rw [decodeFrom, if_neg (A.symbol_ne_pad v), A.value_symbol]

theorem decodeFrom_pad (quadPos leftchar pads : ℕ) (cs : List α) :
    A.decodeFrom quadPos leftchar pads (A.pad :: cs) =
      if 2 ≤ quadPos ∧ 4 ≤ quadPos + (pads + 1) then .ok []
      else A.decodeFrom quadPos leftchar (if 2 ≤ quadPos then pads + 1 else pads) cs := by
  rw [decodeFrom, if_pos rfl]

theorem decodeFrom_first (l : ℕ) (a : UInt8) {n x : ℕ} (hx : x < 16)
    (hn : n = a.toNat % 4 * 16 + x) (cs : List α) :
    A.decodeFrom 0 l 0 (A.symbol (sextet (a.toNat / 4)) :: A.symbol (sextet n) :: cs) =
      (a :: ·) <$> A.decodeFrom 2 x 0 cs := by
  rw [decodeFrom_symbol, decodeFrom_symbol, emit_zero, emit_first a hx hn]
  cases A.decodeFrom 2 x 0 cs <;> rfl

theorem decodeFrom_second (b : UInt8) {n x : ℕ} (hx : x < 4) (hn : n = b.toNat % 16 * 4 + x)
    (cs : List α) : A.decodeFrom 2 (b.toNat / 16) 0 (A.symbol (sextet n) :: cs) =
      (b :: ·) <$> A.decodeFrom 3 x 0 cs := by
  rw [decodeFrom_symbol, emit_second b hx hn]
  cases A.decodeFrom 3 x 0 cs <;> rfl

theorem decodeFrom_third (c : UInt8) (cs : List α) :
    A.decodeFrom 3 (c.toNat / 64) 0 (A.symbol (sextet (c.toNat % 64)) :: cs) =
      (c :: ·) <$> A.decodeFrom 0 0 0 cs := by
  rw [decodeFrom_symbol, emit_third]
  cases A.decodeFrom 0 0 0 cs <;> rfl

/-- The decoder reads back the octets from their symbols and the padding. -/
theorem decode_encode (b : List UInt8) : A.decode (A.encode b) = .ok b := by
  suffices h : ∀ l, A.decodeFrom 0 l 0 (A.encode b) = .ok b from h 0
  unfold encode
  induction b using sextets.induct with
  | case1 =>
    intro l
    rfl
  | case2 a =>
    intro l
    simp only [sextets, List.map_cons, List.map_nil, List.cons_append, List.nil_append]
    rw [A.decodeFrom_first l a (x := 0) (by omega) (Nat.add_zero _).symm]
    simp [padding, decodeFrom_pad]
  | case3 a b =>
    intro l
    have hb := b.toNat_lt
    simp only [sextets, List.map_cons, List.map_nil, List.cons_append, List.nil_append]
    rw [A.decodeFrom_first l a (by omega) rfl,
      A.decodeFrom_second b (x := 0) (by omega) (Nat.add_zero _).symm]
    simp [padding, decodeFrom_pad]
  | case4 a b c r ih =>
    intro l
    have hb := b.toNat_lt
    have hc := c.toNat_lt
    have hpad : padding (a :: b :: c :: r).length = padding r.length := by
      simp only [padding, List.length_cons]
      omega
    simp only [sextets, List.map_cons, List.cons_append, hpad]
    rw [A.decodeFrom_first l a (by omega) rfl, A.decodeFrom_second b (by omega) rfl,
      A.decodeFrom_third c, ih 0]
    rfl

end Alphabet

end Base64
