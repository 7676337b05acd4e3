import Ioka.Python.Text

/-! # Decoding of bytes

`json.loads` guesses the encoding of its bytes from a byte-order mark or from where the
zero bytes are, and lets surrogates pass. ASCII bytes are decoded as themselves.
-/

namespace Python

/-- The code point of a number below `0x110000`. -/
def CodePoint.ofNat (n : ℕ) : CodePoint :=
  if 0xd800 ≤ n ∧ n < 0xe000 then .surrogate (.ofNat 2048 (n - 0xd800)) else .scalar (Char.ofNat n)

def isHighSurrogate (n : ℕ) : Bool := 0xd800 ≤ n ∧ n < 0xdc00

def isLowSurrogate (n : ℕ) : Bool := 0xdc00 ≤ n ∧ n < 0xe000

/-- The code point outside the basic plane of a pair of surrogates. -/
def joinSurrogates (high low : ℕ) : CodePoint :=
  .ofNat (0x10000 + (high - 0xd800) * 0x400 + (low - 0xdc00))

inductive Encoding
  | utf8
  | utf8Sig
  | utf16
  | utf16be
  | utf16le
  | utf32
  | utf32be
  | utf32le
  deriving DecidableEq

/-- `json.detect_encoding(b)` -/
def detectEncoding (b : Bytes) : Encoding :=
  if [0x00, 0x00, 0xfe, 0xff] <+: b ∨ [0xff, 0xfe, 0x00, 0x00] <+: b then .utf32
  else if [0xfe, 0xff] <+: b ∨ [0xff, 0xfe] <+: b then .utf16
  else if [0xef, 0xbb, 0xbf] <+: b then .utf8Sig
  else match b with
    | b₀ :: b₁ :: b₂ :: b₃ :: _ =>
      if b₀ = 0 then if b₁ = 0 then .utf32be else .utf16be
      else if b₁ = 0 then if b₂ = 0 ∧ b₃ = 0 then .utf32le else .utf16le
      else .utf8
    | [b₀, b₁] =>
      if b₀ = 0 then .utf16be
      else if b₁ = 0 then .utf16le
      else .utf8
    | _ => .utf8

def isContinuation (b : UInt8) : Bool := 0x80 ≤ b.toNat ∧ b.toNat < 0xc0

/-- `b.decode("utf-8", "surrogatepass")` -/
def decodeUtf8 : Bytes → Except Exc Str
  | [] => .ok []
  | a :: r =>
    if a.toNat < 0x80 then (.ofNat a.toNat :: ·) <$> decodeUtf8 r
    else match r with
      | [] => .error .unicodeDecodeError
      | b :: r =>
        if 0xc2 ≤ a.toNat ∧ a.toNat < 0xe0 ∧ isContinuation b then
          (.ofNat ((a.toNat - 0xc0) * 0x40 + (b.toNat - 0x80)) :: ·) <$> decodeUtf8 r
        else match r with
          | [] => .error .unicodeDecodeError
          | c :: r =>
            if 0xe0 ≤ a.toNat ∧ a.toNat < 0xf0 ∧ isContinuation b ∧ isContinuation c ∧
                (a.toNat = 0xe0 → 0xa0 ≤ b.toNat) then
              (.ofNat ((a.toNat - 0xe0) * 0x1000 + (b.toNat - 0x80) * 0x40 + (c.toNat - 0x80)) :: ·)
                <$> decodeUtf8 r
            else match r with
              | [] => .error .unicodeDecodeError
              | d :: r =>
                if 0xf0 ≤ a.toNat ∧ a.toNat < 0xf5 ∧ isContinuation b ∧ isContinuation c ∧
                    isContinuation d ∧ (a.toNat = 0xf0 → 0x90 ≤ b.toNat) ∧
                    (a.toNat = 0xf4 → b.toNat < 0x90) then
                  (.ofNat ((a.toNat - 0xf0) * 0x40000 + (b.toNat - 0x80) * 0x1000 +
                    (c.toNat - 0x80) * 0x40 + (d.toNat - 0x80)) :: ·) <$> decodeUtf8 r
                else .error .unicodeDecodeError

/-- The number that two bytes make. -/
def unit16 (bigEndian : Bool) (a b : UInt8) : ℕ :=
  if bigEndian then a.toNat * 0x100 + b.toNat else b.toNat * 0x100 + a.toNat

/-- `b.decode("utf-16-be", "surrogatepass")`, or with the bytes the other way round. -/
def decodeUtf16 (bigEndian : Bool) : Bytes → Except Exc Str
  | [] => .ok []
  | [_] => .error .unicodeDecodeError
  | a :: b :: r =>
    if isHighSurrogate (unit16 bigEndian a b) then
      match r with
      | c :: d :: r' =>
        if isLowSurrogate (unit16 bigEndian c d) then
          (joinSurrogates (unit16 bigEndian a b) (unit16 bigEndian c d) :: ·) <$>
            decodeUtf16 bigEndian r'
        else (.ofNat (unit16 bigEndian a b) :: ·) <$> decodeUtf16 bigEndian (c :: d :: r')
      | r => (.ofNat (unit16 bigEndian a b) :: ·) <$> decodeUtf16 bigEndian r
    else (.ofNat (unit16 bigEndian a b) :: ·) <$> decodeUtf16 bigEndian r

/-- `b.decode("utf-32-be", "surrogatepass")`, or with the bytes the other way round. -/
def decodeUtf32 (bigEndian : Bool) : Bytes → Except Exc Str
  | [] => .ok []
  | a :: b :: c :: d :: r =>
    let n := if bigEndian then unit16 true a b * 0x10000 + unit16 true c d
      else unit16 false c d * 0x10000 + unit16 false a b
    if n < 0x110000 then (.ofNat n :: ·) <$> decodeUtf32 bigEndian r
    else .error .unicodeDecodeError
  | _ => .error .unicodeDecodeError

/-- `b.decode(encoding, "surrogatepass")` -/
def Encoding.decode (b : Bytes) : Encoding → Except Exc Str
  | .utf8 => decodeUtf8 b
  | .utf8Sig => decodeUtf8 (if [0xef, 0xbb, 0xbf] <+: b then b.drop 3 else b)
  | .utf16 => if [0xfe, 0xff] <+: b then decodeUtf16 true (b.drop 2) else
      if [0xff, 0xfe] <+: b then decodeUtf16 false (b.drop 2) else decodeUtf16 false b
  | .utf16be => decodeUtf16 true b
  | .utf16le => decodeUtf16 false b
  | .utf32 => if [0x00, 0x00, 0xfe, 0xff] <+: b then decodeUtf32 true (b.drop 4) else
      if [0xff, 0xfe, 0x00, 0x00] <+: b then decodeUtf32 false (b.drop 4) else decodeUtf32 false b
  | .utf32be => decodeUtf32 true b
  | .utf32le => decodeUtf32 false b

section Ascii

/-- Printable ASCII characters, or a delete; none is encoded as a zero. -/
def Printable (cs : List Char) : Prop := ∀ c ∈ cs, 32 ≤ c.toNat ∧ c.toNat < 128

instance (cs : List Char) : Decidable (Printable cs) := List.decidableBAll _ cs

theorem utf8EncodeChar_ascii {c : Char} (h : c.toNat < 128) :
    String.utf8EncodeChar c = [UInt8.ofNat c.toNat] := by
  have hv : c.val.toNat ≤ 0x7f := Nat.le_of_lt_succ h
  rw [String.utf8EncodeChar, if_pos hv]
  rfl

theorem utf8_cons {c : Char} (h : c.toNat < 128) (cs : List Char) :
    utf8 (c :: cs) = UInt8.ofNat c.toNat :: utf8 cs := by
  rw [utf8, List.flatMap_cons, utf8EncodeChar_ascii h]
  rfl

theorem toNat_ofNat {n : ℕ} (h : n < 128) : (UInt8.ofNat n).toNat = n := by
  rw [UInt8.toNat_ofNat', Nat.mod_eq_of_lt (by omega)]

theorem CodePoint.ofNat_toNat (c : Char) : CodePoint.ofNat c.toNat = .scalar c := by
  have hc : c.toNat < 0xd800 ∨ 0xdfff < c.toNat ∧ c.toNat < 0x110000 := c.valid
  rw [CodePoint.ofNat, if_neg (by omega), Char.ofNat_toNat]

theorem decodeUtf8_utf8 {cs : List Char} (h : Printable cs) :
    decodeUtf8 (utf8 cs) = .ok (text cs) := by
  induction cs with
  | nil => rfl
  | cons c cs ih =>
    obtain ⟨_, hc⟩ := h c List.mem_cons_self
    rw [utf8_cons hc, decodeUtf8.eq_def]
    simp only [toNat_ofNat hc, if_pos hc, CodePoint.ofNat_toNat]
    rw [ih fun d hd => h d (List.mem_cons_of_mem _ hd)]
    rfl

theorem detectEncoding_utf8 {cs : List Char} (h : Printable cs) :
    detectEncoding (utf8 cs) = .utf8 := by
  have hmem {b : UInt8} (hb : b ∈ utf8 cs) : 32 ≤ b.toNat ∧ b.toNat < 128 := by
    obtain ⟨c, hc, hbc⟩ := List.mem_flatMap.mp hb
    obtain ⟨h₁, h₂⟩ := h c hc
    rw [utf8EncodeChar_ascii h₂, List.mem_singleton] at hbc
    rw [hbc, toNat_ofNat h₂]
    exact ⟨h₁, h₂⟩
  have hne {b : UInt8} (hb : b ∈ utf8 cs) : b ≠ 0 := by
    rintro rfl
    exact absurd (hmem hb).1 (by decide)
  have hmark {b : UInt8} {bs : Bytes} (hb : ¬ (32 ≤ b.toNat ∧ b.toNat < 128)) :
      ¬ (b :: bs) <+: utf8 cs := by
    intro hp
    exact hb (hmem (hp.subset List.mem_cons_self))
  generalize utf8 cs = bs at hne hmark
  unfold detectEncoding
  rw [if_neg (by simp [hmark]), if_neg (by simp [hmark]), if_neg (by simp [hmark])]
  split
  · rw [if_neg (hne (by simp)), if_neg (hne (by simp))]
  · rw [if_neg (hne (by simp)), if_neg (hne (by simp))]
  · rfl

end Ascii

end Python
