import Mathlib.Algebra.Order.Floor.Div
import Mathlib.GroupTheory.GroupAction.Ring
import Mathlib.Tactic.FinCases
import Ioka.Encoding.Base64
import Ioka.Python.Text

/-! # Unpadded base64url

`_b64encode` strips the padding, and `_b64decode` restores it from the length alone.
Tokens and stored passwords rest on the round trip and on the characters used.
-/

namespace Ioka

open Python

/-- The symbols of the standard alphabet. -/
def base64Char (i : Fin 64) : Char :=
  if i.val < 26 then .ofNat (65 + i)
  else if i.val < 52 then .ofNat (71 + i)
  else if i.val < 62 then .ofNat (i.val - 4)
  else if i.val = 62 then '+' else '/'

def base64Value (c : Char) : Option (Fin 64) :=
  if 'A' ≤ c ∧ c ≤ 'Z' then some (Base64.sextet (c.toNat - 65))
  else if 'a' ≤ c ∧ c ≤ 'z' then some (Base64.sextet (c.toNat - 71))
  else if '0' ≤ c ∧ c ≤ '9' then some (Base64.sextet (c.toNat + 4))
  else if c = '+' then some (Base64.sextet 62)
  else if c = '/' then some (Base64.sextet 63)
  else none

def base64 : Base64.Alphabet Char where
  symbol := base64Char
  pad := '='
  value := base64Value
  value_symbol := by decide
  value_pad := by decide

/-- `_urlsafe_encode_translation` -/
def urlsafeEncodeTranslation (c : Char) : Char :=
  if c = '+' then '-' else if c = '/' then '_' else c

/-- `_urlsafe_decode_translation` -/
def urlsafeDecodeTranslation (c : Char) : Char :=
  if c = '-' then '+' else if c = '_' then '/' else c

/-- `base64.urlsafe_b64encode(value)`, as the text of its bytes. -/
def urlsafeB64encode (value : Bytes) : List Char :=
  (base64.encode value).map urlsafeEncodeTranslation

/-- `base64.urlsafe_b64decode(s)` of a string. -/
def urlsafeB64decode (s : Str) : Except Exc Bytes :=
  match ascii? s with
  | some cs =>
    match base64.decode (cs.map urlsafeDecodeTranslation) with
    | .ok b => .ok b
    | .error _ => .error .binasciiError
  | none => .error .valueError

def b64encode (value : Bytes) : Str := text ((urlsafeB64encode value).rdropWhile (· = '='))

def b64decode (value : Str) : Except Exc Bytes :=
  let padding := text (List.replicate ((4 - value.length % 4) % 4) '=')
  urlsafeB64decode (value ++ padding)

/-- A letter, a digit, a hyphen or an underscore. -/
def urlsafeChar (c : Char) : Bool := c.isAlphanum || c = '-' || c = '_'

section Encode

theorem encodeTranslation_symbol : ∀ i : Fin 64,
    urlsafeChar (urlsafeEncodeTranslation (base64Char i)) = true ∧
      urlsafeDecodeTranslation (urlsafeEncodeTranslation (base64Char i)) = base64Char i := by
  decide

theorem toNat_encodeTranslation_symbol : ∀ i : Fin 64,
    (urlsafeEncodeTranslation (base64Char i)).toNat < 128 := by decide

theorem b64encode_eq (b : Bytes) : b64encode b =
    text ((Base64.sextets b).map (urlsafeEncodeTranslation ∘ base64Char)) := by
  have hlast (s : List (Fin 64)) : (s.map (urlsafeEncodeTranslation ∘ base64Char)).rdropWhile
      (· = '=') = s.map (urlsafeEncodeTranslation ∘ base64Char) := by
    rw [List.rdropWhile_eq_self_iff]
    intro hl
    obtain ⟨i, _, hi⟩ := List.mem_map.mp (List.getLast_mem hl)
    rw [← hi]
    intro he
    have hc := (encodeTranslation_symbol i).1
    rw [show urlsafeEncodeTranslation (base64Char i) = '=' from of_decide_eq_true he] at hc
    exact absurd hc (by decide)
  have hpads (n : ℕ) (s : List Char) : (s ++ List.replicate n '=').rdropWhile (· = '=') =
      s.rdropWhile (· = '=') := by
    induction n with
    | zero => simp
    | succ n ih =>
      rw [List.replicate_succ', ← List.append_assoc, List.rdropWhile_concat_pos _ _ _ (by simp), ih]
  have hpad : urlsafeEncodeTranslation base64.pad = '=' := rfl
  have hsym : List.map (urlsafeEncodeTranslation ∘ base64.symbol) =
    List.map (urlsafeEncodeTranslation ∘ base64Char) := rfl
  rw [b64encode, urlsafeB64encode, Base64.Alphabet.encode, List.map_append, List.map_replicate,
    List.map_map, hpad, hpads, hsym, hlast]

theorem length_b64encode (b : Bytes) : (b64encode b).length = (4 * b.length) ⌈/⌉ 3 := by
  rw [b64encode_eq, text, List.length_map, List.length_map, Base64.length_sextets,
    Nat.ceilDiv_eq_add_pred_div]
  rfl

theorem mem_b64encode {b : Bytes} {c : CodePoint} (h : c ∈ b64encode b) :
    ∃ d, c = .scalar d ∧ urlsafeChar d = true := by
  rw [b64encode_eq] at h
  obtain ⟨d, hd, rfl⟩ := List.mem_map.mp h
  obtain ⟨i, _, rfl⟩ := List.mem_map.mp hd
  exact ⟨_, rfl, (encodeTranslation_symbol i).1⟩

theorem notMem_b64encode {b : Bytes} {sep : Char} (h : urlsafeChar sep = false) :
    .scalar sep ∉ b64encode b := by
  intro hm
  obtain ⟨d, hd, hsafe⟩ := mem_b64encode hm
  cases hd
  rw [h] at hsafe
  cases hsafe

theorem b64decode_b64encode (b : Bytes) : b64decode (b64encode b) = .ok b := by
  have hlen : (4 - (b64encode b).length % 4) % 4 = Base64.padding b.length := by
    rw [Base64.padding_eq, b64encode_eq, text, List.length_map, List.length_map]
  have htext : b64encode b ++ text (List.replicate (Base64.padding b.length) '=') =
      text ((Base64.sextets b).map (urlsafeEncodeTranslation ∘ base64Char) ++
        List.replicate (Base64.padding b.length) '=') := by
    rw [b64encode_eq, text_append]
  have hascii : ∀ c ∈ (Base64.sextets b).map (urlsafeEncodeTranslation ∘ base64Char) ++
      List.replicate (Base64.padding b.length) '=', c.toNat < 128 := by
    intro c hc
    rcases List.mem_append.mp hc with hc | hc
    · obtain ⟨i, _, rfl⟩ := List.mem_map.mp hc
      exact toNat_encodeTranslation_symbol i
    · rw [List.eq_of_mem_replicate hc]
      decide
  have hback : ((Base64.sextets b).map (urlsafeEncodeTranslation ∘ base64Char) ++
      List.replicate (Base64.padding b.length) '=').map urlsafeDecodeTranslation =
      base64.encode b := by
    rw [List.map_append, List.map_map, List.map_replicate, Base64.Alphabet.encode]
    congr 1
    exact List.map_congr_left fun i _ => (encodeTranslation_symbol i).2
  simp only [b64decode, hlen, htext, urlsafeB64decode, ascii?_text hascii, hback,
    base64.decode_encode]

theorem b64encode_injective : Function.Injective b64encode := by
  intro b b' h
  have hb := b64decode_b64encode b
  rw [h, b64decode_b64encode] at hb
  exact (Except.ok.inj hb).symm

theorem ascii?_b64encode (b : Bytes) : (ascii? (b64encode b)).isSome = true := by
  rw [b64encode_eq, ascii?_text]
  · rfl
  · intro c hc
    obtain ⟨i, _, rfl⟩ := List.mem_map.mp hc
    exact toNat_encodeTranslation_symbol i

end Encode

/-- Unpadded base64url gives back every byte string, with one character for six bits begun and
none that is a separator. -/
theorem b64_round_trip : (∀ b, b64decode (b64encode b) = .ok b) ∧
    (∀ b, (b64encode b).length = (4 * b.length) ⌈/⌉ 3) ∧
    (∀ b, ∀ c ∈ b64encode b, ∃ d, c = .scalar d ∧ urlsafeChar d = true) ∧
    (∀ b, ∀ sep ∈ ['.', '$', '='], .scalar sep ∉ b64encode b) ∧
    Function.Injective b64encode := by
  refine ⟨b64decode_b64encode, length_b64encode, fun b c => mem_b64encode, fun b sep hsep => ?_,
    b64encode_injective⟩
  rw [List.mem_cons, List.mem_cons, List.mem_singleton] at hsep
  rcases hsep with rfl | rfl | rfl <;> exact notMem_b64encode (by decide)

end Ioka
