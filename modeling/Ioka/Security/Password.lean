import Ioka.Python.Numerals
import Ioka.Security.Base64url

/-! # Stored passwords

A stored password is four fields separated by `$`. The fields of a fresh one split
back into themselves, so that verification compares the digests. On an arbitrary
stored string verification returns a Boolean, unless the iteration count is too large.
-/

namespace Ioka

open Python

def PBKDF2_ITERATIONS : ℕ := 310000

/-- The largest `int` of C. -/
def INT_MAX : ℤ := 2 ^ 31 - 1

/-- `hashlib.pbkdf2_hmac("sha256", password, salt, iterations)`, over an arbitrary digest. -/
def pbkdf2Hmac (pbkdf2 : Bytes → Bytes → ℕ → Bytes) (password salt : Bytes) (iterations : ℤ) :
    Except Exc Bytes :=
  -- A count below 1 is taken to be a `ValueError` throughout. CPython converts the count to a C
  -- `long` first, which is an `OverflowError` for one below `-2 ^ 63` as well.
  if iterations < 1 then .error .valueError
  else if INT_MAX < iterations then .error .overflowError
  else .ok (pbkdf2 password salt iterations.toNat)

/-- `hmac.compare_digest` of two strings. -/
def compareDigest (a b : Str) : Except Exc Bool :=
  if (ascii? a).isSome ∧ (ascii? b).isSome then .ok (a = b) else .error .typeError

/-- The text that `hash_password` returns. -/
def storedPassword (salt digest : Bytes) : Str :=
  str "pbkdf2_sha256$" ++ text (decimal PBKDF2_ITERATIONS) ++ str "$" ++ b64encode salt ++
    str "$" ++ b64encode digest

/-- `hash_password`, with the salt that `secrets.token_bytes(16)` returned. -/
def hashPassword (pbkdf2 : Bytes → Bytes → ℕ → Bytes) (salt : Bytes) (password : Str) :
    Except Exc Str := do
  let digest ← pbkdf2Hmac pbkdf2 (← encode password) salt PBKDF2_ITERATIONS
  return storedPassword salt digest

/-- The body of the `try` in `verify_password`. -/
def verifyFields (pbkdf2 : Bytes → Bytes → ℕ → Bytes) (u : UnicodeData) (password encoded : Str) :
    Except Exc Bool :=
  match splitMax '$' 3 encoded with
  | [algorithm, iterations, salt, expected] =>
    if algorithm ≠ str "pbkdf2_sha256" then .ok false
    else do
      let password ← encode password
      let salt ← b64decode salt
      let iterations ← int u iterations
      let digest ← pbkdf2Hmac pbkdf2 password salt iterations
      compareDigest (b64encode digest) expected
  | _ => .error .valueError

/-- `except (TypeError, ValueError)` -/
def caught (e : Exc) : Bool := e = .typeError || e.isValueError

def verifyPassword (pbkdf2 : Bytes → Bytes → ℕ → Bytes) (u : UnicodeData)
    (password encoded : Str) : Except Exc Bool :=
  match verifyFields pbkdf2 u password encoded with
  | .ok verified => .ok verified
  | .error e => if caught e then .ok false else .error e

variable {pbkdf2 : Bytes → Bytes → ℕ → Bytes} {u : UnicodeData}

section Fields

theorem splitMax_storedPassword (salt digest : Bytes) :
    splitMax '$' 3 (storedPassword salt digest) =
    [str "pbkdf2_sha256", text (decimal PBKDF2_ITERATIONS), b64encode salt, b64encode digest] := by
  have hsalt : .scalar '$' ∉ b64encode salt := notMem_b64encode (by decide)
  have hdigits : '$' ∉ decimal PBKDF2_ITERATIONS := fun h =>
    absurd (isDigit_of_mem_decimal h) (by decide)
  have hfields : storedPassword salt digest =
      str "pbkdf2_sha256" ++ .scalar '$' :: (text (decimal PBKDF2_ITERATIONS) ++
        .scalar '$' :: (b64encode salt ++ .scalar '$' :: b64encode digest)) := by
    simp [storedPassword, str, text]
  rw [hfields, splitMax_append (by simp [str]), splitMax_append (by simpa using hdigits),
    splitMax_append hsalt]
  rfl

theorem compareDigest_b64encode (b b' : Bytes) :
    compareDigest (b64encode b) (b64encode b') = .ok (b = b') := by
  rw [compareDigest, if_pos ⟨ascii?_b64encode b, ascii?_b64encode b'⟩]
  simp [b64encode_injective.eq_iff]

theorem pbkdf2Hmac_iterations (password salt : Bytes) :
    pbkdf2Hmac pbkdf2 password salt PBKDF2_ITERATIONS =
      .ok (pbkdf2 password salt PBKDF2_ITERATIONS) := rfl

end Fields

theorem verifyFields_storedPassword (q : List Char) (salt digest : Bytes) :
    verifyFields pbkdf2 u (text q) (storedPassword salt digest) =
      .ok (pbkdf2 (utf8 q) salt PBKDF2_ITERATIONS = digest) := by
  have hint := int_decimal u (n := PBKDF2_ITERATIONS) (by decide)
  rw [verifyFields, splitMax_storedPassword]
  simp only [ne_eq, not_true_eq_false, if_false, encode_text, b64decode_b64encode, hint,
    bind, Except.bind, pbkdf2Hmac_iterations, compareDigest_b64encode]

/-- On a stored hash verification compares the digests of the two passwords. -/
theorem verify_hash (pbkdf2 : Bytes → Bytes → ℕ → Bytes) (u : UnicodeData) (salt : Bytes)
    (p q : List Char) : ∃ e, hashPassword pbkdf2 salt (text p) = .ok e ∧
      verifyPassword pbkdf2 u (text q) e = .ok (decide (
        pbkdf2 (utf8 q) salt PBKDF2_ITERATIONS = pbkdf2 (utf8 p) salt PBKDF2_ITERATIONS)) ∧
      verifyPassword pbkdf2 u (text p) e = .ok true := by
  refine ⟨storedPassword salt (pbkdf2 (utf8 p) salt PBKDF2_ITERATIONS), ?_, ?_, ?_⟩
  · rw [hashPassword, encode_text]
    rfl
  · rw [verifyPassword, verifyFields_storedPassword]
  · rw [verifyPassword, verifyFields_storedPassword]
    simp

/-! ## Arbitrary stored strings -/

/-- The stored string is well formed up to its digest, but asks for more iterations than an
`int` of C can count. -/
def overlong (u : UnicodeData) (password encoded : Str) : Bool :=
  match splitMax '$' 3 encoded with
  | [algorithm, iterations, salt, _] =>
    algorithm = str "pbkdf2_sha256" && (encode password).isOk && (b64decode salt).isOk &&
      match int u iterations with
      | .ok n => INT_MAX < n
      | .error _ => false
  | _ => false

section Exceptions

theorem b64decode_eq_error {s : Str} {e : Exc} (h : b64decode s = .error e) :
    e.isValueError = true := by
  unfold b64decode urlsafeB64decode at h
  simp only at h
  split at h
  · split at h
    · cases h
    · cases h
      rfl
  · cases h
    rfl

theorem pbkdf2Hmac_eq_error {password salt : Bytes} {n : ℤ} {e : Exc} (hn : n ≤ INT_MAX)
    (h : pbkdf2Hmac pbkdf2 password salt n = .error e) : e = .valueError := by
  unfold pbkdf2Hmac at h
  split_ifs at h with h₁ h₂
  · cases h
    rfl
  · exact absurd hn (not_le.mpr h₂)

theorem compareDigest_eq_error {a b : Str} {e : Exc} (h : compareDigest a b = .error e) :
    e = .typeError := by
  unfold compareDigest at h
  split_ifs at h
  cases h
  rfl

variable (pbkdf2 u) in
theorem verifyFields_cases (password encoded : Str) :
    if overlong u password encoded then
      verifyFields pbkdf2 u password encoded = .error .overflowError
    else ∀ e, verifyFields pbkdf2 u password encoded = .error e → caught e = true := by
  unfold verifyFields overlong
  split
  case h_2 =>
    intro e h
    cases h
    rfl
  case h_1 algorithm iterations salt expected hfields =>
    by_cases halg : algorithm = str "pbkdf2_sha256"
    case neg => simp [halg]
    cases hp : encode password with
    | error e =>
      have he := encode_eq_error hp
      simp [halg, he, bind, Except.bind, Except.isOk, Except.toBool, caught, Exc.isValueError]
    | ok password =>
      cases hs : b64decode salt with
      | error e =>
        have he := b64decode_eq_error hs
        simp [halg, he, bind, Except.bind, Except.isOk, Except.toBool, caught]
      | ok salt =>
        cases hn : int u iterations with
        | error e =>
          have he := int_eq_error hn
          simp [halg, he, bind, Except.bind, caught, Exc.isValueError]
        | ok n =>
          by_cases hbig : INT_MAX < n
          case pos =>
            have hlow : ¬ n < 1 := not_lt.mpr (by unfold INT_MAX at hbig; omega)
            simp [halg, hbig, hlow, bind, Except.bind, Except.isOk, Except.toBool, pbkdf2Hmac]
          case neg =>
            simp only [halg, ne_eq, not_true_eq_false, if_false, hbig, decide_false, Bool.and_false,
              Bool.false_eq_true, bind, Except.bind]
            intro e h
            cases hd : pbkdf2Hmac pbkdf2 password salt n with
            | error e' =>
              rw [hd] at h
              cases h
              rw [pbkdf2Hmac_eq_error (not_lt.mp hbig) hd]
              rfl
            | ok digest =>
              rw [hd] at h
              rw [compareDigest_eq_error h]
              rfl

end Exceptions

/-- `verify_password` returns a Boolean exactly if the stored string does not ask for too many
iterations; otherwise an `OverflowError` escapes. -/
theorem verify_returns_iff (pbkdf2 : Bytes → Bytes → ℕ → Bytes) (u : UnicodeData)
    (password encoded : Str) :
    ((∃ verified, verifyPassword pbkdf2 u password encoded = .ok verified) ↔
      overlong u password encoded = false) ∧
    ∀ e, verifyPassword pbkdf2 u password encoded = .error e → e = .overflowError := by
  have hcases := verifyFields_cases pbkdf2 u password encoded
  unfold verifyPassword
  cases hlong : overlong u password encoded with
  | true =>
    rw [hlong, if_pos rfl] at hcases
    rw [hcases]
    simp [caught, Exc.isValueError]
  | false =>
    rw [hlong, if_neg (by simp)] at hcases
    cases hv : verifyFields pbkdf2 u password encoded with
    | ok verified => simp
    | error e => simp [hcases e hv]

/-- Too many iterations raise an exception that is not caught. -/
theorem not_verify_returns_overlong : ¬ ∀ (pbkdf2 : Bytes → Bytes → ℕ → Bytes) (u : UnicodeData)
    (password encoded : Str), ∃ verified, verifyPassword pbkdf2 u password encoded =
      .ok verified := by
  intro hall
  obtain ⟨verified, hv⟩ := hall (fun _ _ _ => []) asciiData (str "secret")
    (str "pbkdf2_sha256$2147483648$AAAA$AAAA")
  have herr : verifyPassword (fun _ _ _ => []) asciiData (str "secret")
      (str "pbkdf2_sha256$2147483648$AAAA$AAAA") = .error .overflowError := by
    decide +kernel
  rw [herr] at hv
  cases hv

end Ioka
