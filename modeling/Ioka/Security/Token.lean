import Ioka.Domain.Types
import Ioka.Json.RoundTrip
import Ioka.Python.Datetime
import Ioka.Security.Base64url

/-! # Access tokens

A token is a header, a payload and a signature of both. What decoding accepts has the
signature of its own text under the secret, and every other string raises an
`AuthenticationError`. The MAC and the Unicode database are arbitrary.
-/

namespace Ioka

open Python

/-- The settings that tokens depend on. -/
structure JwtSettings where
  jwtSecret : String
  jwtIssuer : String
  jwtAudience : String
  jwtTtlMinutes : ℤ

/-- `secrets.token_urlsafe(16)`, of the random bytes it drew. -/
def tokenUrlsafe (random : Bytes) : String :=
  .ofList ((urlsafeB64encode random).rdropWhile (· = '='))

def accessHeader : Json := .obj [("alg", .str "HS256"), ("typ", .str "JWT")]

def accessPayload (settings : JwtSettings) (subject : String) (iat exp : ℤ) (jti : String) : Json :=
  .obj [("sub", .str subject), ("iss", .str settings.jwtIssuer), ("aud", .str settings.jwtAudience),
    ("iat", .int iat), ("exp", .int exp), ("jti", .str jti)]

/-- `_b64encode(json.dumps(value, separators=(",", ":")).encode())` -/
def encodeSegment (value : Json) : Str := b64encode (utf8 value.dumps.toList)

/-- Two texts with a dot between them. -/
def dotted (s t : Str) : Str := s ++ .scalar '.' :: t

section Functions

variable (hmac : Bytes → Bytes → Bytes)

/-- `create_access_token`, with the time it read and the random bytes it drew. -/
def createAccessToken (settings : JwtSettings) (subject : String) (now : Datetime)
    (random : Bytes) : Except Exc (Str × Datetime) := do
  let expiresAt ← now.addMinutes settings.jwtTtlMinutes
  let iat ← now.timestamp.toInt
  let exp ← expiresAt.timestamp.toInt
  let payload := accessPayload settings subject iat exp (tokenUrlsafe random)
  let encodedHeader := encodeSegment accessHeader
  let encodedPayload := encodeSegment payload
  let signingInput ← encode (dotted encodedHeader encodedPayload)
  let signature := hmac (utf8 settings.jwtSecret.toList) signingInput
  return (dotted (dotted encodedHeader encodedPayload) (b64encode signature), expiresAt)

/-- What leaves the `try` block of `decode_access_token`. -/
inductive TokenError
  | authentication (message : String)
  | other (e : Exc)
  deriving DecidableEq

/-- A call of a library function in the `try` block. -/
def raising {α : Type} : Except Exc α → Except TokenError α := Except.mapError .other

/-- `if not condition: raise AuthenticationError(message)` -/
def require (condition : Bool) (message : String) : Except TokenError Unit :=
  if condition then .ok () else .error (.authentication message)

/-- The body of the `try` in `decode_access_token`, at the time that it reads. -/
def decodeSegments (u : UnicodeData) (settings : JwtSettings) (now : Datetime) (token : Str) :
    Except TokenError Dict :=
  match split '.' token with
  | [encodedHeader, encodedPayload, encodedSignature] => do
    let signingInput ← raising (encode (dotted encodedHeader encodedPayload))
    let expected := hmac (utf8 settings.jwtSecret.toList) signingInput
    let signature ← raising (b64decode encodedSignature)
    require (expected = signature) "Invalid token signature"
    let headerBytes ← raising (b64decode encodedHeader)
    let header ← raising (loads headerBytes)
    let payloadBytes ← raising (b64decode encodedPayload)
    let payload ← raising (loads payloadBytes)
    let now ← raising now.timestamp.toInt
    let header ← raising header.asDict
    require (Obj.isStr (get header "alg") (str "HS256")) "Unsupported token algorithm"
    let payload ← raising payload.asDict
    require (Obj.isStr (get payload "iss") (str settings.jwtIssuer) &&
      Obj.isStr (get payload "aud") (str settings.jwtAudience)) "Invalid token issuer or audience"
    let exp ← raising (((get payload "exp").getD (.int 0)).toInt u)
    require (now < exp) "Token has expired"
    require ((get payload "sub").any Obj.truthy) "Token subject is missing"
    return payload
  | _ => .error (.other .valueError)

def decodeAccessToken (u : UnicodeData) (settings : JwtSettings) (now : Datetime) (token : Str) :
    Except TokenError Dict :=
  match decodeSegments hmac u settings now token with
  | .ok payload => .ok payload
  | .error (.authentication message) => .error (.authentication message)
  | .error (.other _) => .error (.authentication "Malformed bearer token")

end Functions

/-- What a decoded token has shown: the signature of its text under the secret, the algorithm,
the issuer and audience, an expiry later than now, and a subject. -/
structure Authentic (hmac : Bytes → Bytes → Bytes) (u : UnicodeData) (settings : JwtSettings)
    (now : Datetime) (encodedHeader encodedPayload encodedSignature : Str) (payload : Dict) :
    Prop where
  signature : ∃ signingInput, encode (dotted encodedHeader encodedPayload) = .ok signingInput ∧
    b64decode encodedSignature = .ok (hmac (utf8 settings.jwtSecret.toList) signingInput)
  algorithm : ∃ bytes header, b64decode encodedHeader = .ok bytes ∧
    loads bytes = .ok (.dict header) ∧ get header "alg" = some (.str (str "HS256"))
  loaded : ∃ bytes, b64decode encodedPayload = .ok bytes ∧ loads bytes = .ok (.dict payload)
  issuer : get payload "iss" = some (.str (str settings.jwtIssuer))
  audience : get payload "aud" = some (.str (str settings.jwtAudience))
  expiry : ∃ exp, ((get payload "exp").getD (.int 0)).toInt u = .ok exp ∧ now.seconds < exp
  subject : ∃ sub, get payload "sub" = some sub ∧ sub.truthy = true

section Steps

variable {α : Type}

theorem raising_eq_ok {x : Except Exc α} {a : α} : raising x = .ok a ↔ x = .ok a :=
  mapError_eq_ok

theorem require_eq_ok {condition : Bool} {message : String} {r : Unit} :
    require condition message = .ok r ↔ condition = true := by
  cases condition <;> simp [require]

theorem asDict_eq_ok {x : Obj} {d : Dict} : x.asDict = .ok d ↔ x = .dict d := by
  cases x <;> simp [Obj.asDict]

theorem isStr_iff {x : Option Obj} {s : Str} : Obj.isStr x s = true ↔ x = some (.str s) := by
  unfold Obj.isStr
  split
  · simp
  · rename_i h
    refine ⟨nofun, fun he => absurd he (h s)⟩

end Steps

section Decode

variable {hmac : Bytes → Bytes → Bytes} {u : UnicodeData} {settings settings' : JwtSettings}
  {now : Datetime} {token header payload signature : Str} {d : Dict}

theorem decodeSegments_eq_ok (h : split '.' token = [header, payload, signature]) :
    decodeSegments hmac u settings now token = .ok d ↔
      Authentic hmac u settings now header payload signature d := by
  unfold decodeSegments
  simp only [h, bind_eq_ok, raising_eq_ok, require_eq_ok, asDict_eq_ok, isStr_iff,
    Datetime.toInt_timestamp, decide_eq_true_eq, Bool.and_eq_true, Option.any_eq_true,
    Except.ok.injEq, pure, Except.pure]
  constructor
  · rintro ⟨input, hinput, sig, hsig, _, rfl, hb, hhb, hv, hhv, pb, hpb, pv, hpv, _, rfl, h', rfl,
      _, halg, _, rfl, _, ⟨hiss, haud⟩, exp, hexp, _, hlt, _, hsub, rfl⟩
    exact ⟨⟨input, hinput, hsig⟩, ⟨hb, h', hhb, hhv, halg⟩, ⟨pb, hpb, hpv⟩, hiss, haud,
      ⟨exp, hexp, hlt⟩, hsub⟩
  · rintro ⟨⟨input, hinput, hsig⟩, ⟨hb, h', hhb, hhv, halg⟩, ⟨pb, hpb, hpv⟩, hiss, haud,
      ⟨exp, hexp, hlt⟩, hsub⟩
    exact ⟨input, hinput, _, hsig, (), rfl, hb, hhb, _, hhv, pb, hpb, _, hpv, _, rfl, h', rfl, (),
      halg, d, rfl, (), ⟨hiss, haud⟩, exp, hexp, (), hlt, (), hsub, rfl⟩

/-- A token is decoded exactly if it has three segments that are sound. -/
theorem decodeAccessToken_eq_ok : decodeAccessToken hmac u settings now token = .ok d ↔
    ∃ header payload signature, split '.' token = [header, payload, signature] ∧
      Authentic hmac u settings now header payload signature d := by
  have hok : decodeAccessToken hmac u settings now token = .ok d ↔
      decodeSegments hmac u settings now token = .ok d := by
    unfold decodeAccessToken
    split <;> simp_all
  rw [hok]
  constructor
  · intro h
    have hd := h
    unfold decodeSegments at hd
    split at hd
    · rename_i header payload signature hs
      exact ⟨header, payload, signature, hs, (decodeSegments_eq_ok hs).mp h⟩
    · cases hd
  · rintro ⟨header, payload, signature, hs, hauth⟩
    exact (decodeSegments_eq_ok hs).mpr hauth

theorem decodeAccessToken_eq_error {e : TokenError}
    (h : decodeAccessToken hmac u settings now token = .error e) :
    ∃ message, e = .authentication message := by
  unfold decodeAccessToken at h
  split at h <;> cases h <;> exact ⟨_, rfl⟩

theorem rejected (h : ∀ d, decodeAccessToken hmac u settings now token ≠ .ok d) :
    ∃ message, decodeAccessToken hmac u settings now token = .error (.authentication message) := by
  cases hd : decodeAccessToken hmac u settings now token with
  | ok d => exact absurd hd (h d)
  | error e =>
    obtain ⟨message, rfl⟩ := decodeAccessToken_eq_error hd
    exact ⟨message, rfl⟩

theorem split_dotted {s t : Str} (h : .scalar '.' ∉ t) :
    split '.' (dotted s t) = split '.' s ++ [t] := by
  rw [split, dotted, List.splitOn_append_cons_self, List.splitOn_eq_singleton h]
  rfl

theorem dotted_inj {s t s' t' : Str} (ht : .scalar '.' ∉ t) (ht' : .scalar '.' ∉ t')
    (h : dotted s t = dotted s' t') : s = s' ∧ t = t' := by
  have hs := congrArg (split '.') h
  rw [split_dotted ht, split_dotted ht'] at hs
  have htt : t = t' := by simpa using (List.append_inj' hs rfl).2
  subst htt
  exact ⟨List.append_cancel_right h, rfl⟩

theorem eq_dotted_of_split {s t t' : Str} (h : split '.' s = [t, t']) : s = dotted t t' := by
  have hs : [CodePoint.scalar '.'].intercalate (split '.' s) = s := List.intercalate_splitOn _
  rw [h] at hs
  simpa [dotted, List.intercalate] using hs.symm

end Decode

section Create

variable {hmac : Bytes → Bytes → Bytes} {settings : JwtSettings} {subject : String}
  {now expires : Datetime} {random : Bytes} {token : Str}

/-- The payload that a token is issued with, as it is decoded. -/
def issuedPayload (settings : JwtSettings) (subject : String) (now expires : Datetime)
    (random : Bytes) : Dict :=
  [(str "sub", .str (str subject)), (str "iss", .str (str settings.jwtIssuer)),
    (str "aud", .str (str settings.jwtAudience)), (str "iat", .int now.seconds),
    (str "exp", .int expires.seconds), (str "jti", .str (str (tokenUrlsafe random)))]

theorem exists_encode_dotted (b b' : Bytes) :
    ∃ input, encode (dotted (b64encode b) (b64encode b')) = .ok input := by
  have htext (cs ds : List Char) : dotted (text cs) (text ds) = text (cs ++ '.' :: ds) := by
    rw [dotted, text_append]
    rfl
  rw [b64encode_eq, b64encode_eq, htext]
  exact ⟨_, encode_text _⟩

/-- A token is its header, its payload and the signature of both under the secret. -/
theorem createAccessToken_eq_ok :
    createAccessToken hmac settings subject now random = .ok (token, expires) ↔
    now.addMinutes settings.jwtTtlMinutes = .ok expires ∧ ∃ signingInput,
      encode (dotted (encodeSegment accessHeader) (encodeSegment (accessPayload settings subject
        now.seconds expires.seconds (tokenUrlsafe random)))) = .ok signingInput ∧
      token = dotted (dotted (encodeSegment accessHeader) (encodeSegment (accessPayload settings
        subject now.seconds expires.seconds (tokenUrlsafe random))))
        (b64encode (hmac (utf8 settings.jwtSecret.toList) signingInput)) := by
  unfold createAccessToken
  simp only [bind_eq_ok, Datetime.toInt_timestamp, Except.ok.injEq, pure, Except.pure,
    Prod.mk.injEq]
  constructor
  · rintro ⟨e, he, _, rfl, _, rfl, input, hinput, rfl, rfl⟩
    exact ⟨he, input, hinput, rfl⟩
  · rintro ⟨he, input, hinput, rfl⟩
    exact ⟨expires, he, _, rfl, _, rfl, input, hinput, rfl, rfl⟩

theorem shortInts_seconds (t : Datetime) : (decimal t.seconds.natAbs).length ≤ maxStrDigits := by
  have ⟨hlo, hhi⟩ := abs_le.mp t.abs_seconds_le
  have hlt : t.seconds.natAbs < 10 ^ 12 := by omega
  exact ((Nat.length_toDigits_le_iff (by decide) (by decide)).mpr hlt).trans (by decide)

theorem loads_segment (v : Json) (hd : v.distinctKeys = true) (hi : v.shortInts = true) :
    ∃ b, b64decode (encodeSegment v) = .ok b ∧ loads b = .ok v.toObj := by
  refine ⟨_, b64decode_b64encode _, ?_⟩
  rw [Json.dumps, String.toList_ofList]
  exact Json.loads_dumps v hd hi

theorem loads_header : ∃ b, b64decode (encodeSegment accessHeader) = .ok b ∧
    loads b = .ok (.dict [(str "alg", .str (str "HS256")), (str "typ", .str (str "JWT"))]) :=
  loads_segment accessHeader (by decide) (by decide)

theorem loads_payload (settings : JwtSettings) (subject : String) (now expires : Datetime)
    (random : Bytes) : ∃ b, b64decode (encodeSegment (accessPayload settings subject now.seconds
      expires.seconds (tokenUrlsafe random))) = .ok b ∧
    loads b = .ok (.dict (issuedPayload settings subject now expires random)) := by
  refine loads_segment _ ?_ ?_
  · simp [accessPayload, Json.distinctKeys, Json.distinctMembers]
  · have hn := shortInts_seconds now
    have he := shortInts_seconds expires
    simp [accessPayload, Json.shortInts, Json.shortIntsMembers, hn, he]

theorem notMem_segment (v : Json) : .scalar '.' ∉ encodeSegment v := notMem_b64encode (by decide)

end Create

section Issued

variable {hmac : Bytes → Bytes → Bytes} {u : UnicodeData} {settings settings' : JwtSettings}
  {subject : String} {issued expires now : Datetime} {random : Bytes} {token : Str} {d : Dict}

theorem get_issuedPayload (settings : JwtSettings) (subject : String) (issued expires : Datetime)
    (random : Bytes) :
    get (issuedPayload settings subject issued expires random) "sub" = some (.str (str subject)) ∧
    get (issuedPayload settings subject issued expires random) "iss" =
      some (.str (str settings.jwtIssuer)) ∧
    get (issuedPayload settings subject issued expires random) "aud" =
      some (.str (str settings.jwtAudience)) ∧
    get (issuedPayload settings subject issued expires random) "exp" =
      some (.int expires.seconds) :=
  ⟨rfl, rfl, rfl, rfl⟩

theorem split_segments (header payload : Json) (b : Bytes) :
    split '.' (dotted (dotted (encodeSegment header) (encodeSegment payload)) (b64encode b)) =
      [encodeSegment header, encodeSegment payload, b64encode b] := by
  rw [split_dotted (notMem_b64encode (by decide)), split_dotted (notMem_segment payload), split,
    List.splitOn_eq_singleton (notMem_segment header)]
  rfl

/-- Decoding a token that was issued under the same secret comes down to its payload. -/
theorem decode_issued (hsecret : settings'.jwtSecret = settings.jwtSecret)
    (h : createAccessToken hmac settings subject issued random = .ok (token, expires)) :
    decodeAccessToken hmac u settings' now token = .ok d ↔
      d = issuedPayload settings subject issued expires random ∧
      settings'.jwtIssuer = settings.jwtIssuer ∧ settings'.jwtAudience = settings.jwtAudience ∧
      now.seconds < expires.seconds ∧ subject ≠ "" := by
  obtain ⟨_, input, hinput, rfl⟩ := createAccessToken_eq_ok.mp h
  obtain ⟨hb, hhb, hhv⟩ := loads_header
  obtain ⟨pb, hpb, hpv⟩ := loads_payload settings subject issued expires random
  obtain ⟨hsub, hiss, haud, hexp⟩ := get_issuedPayload settings subject issued expires random
  have hempty : (Obj.str (str subject)).truthy = true ↔ subject ≠ "" := by
    rw [Obj.truthy, decide_eq_true_eq]
    exact str_injective.ne_iff (y := "")
  rw [decodeAccessToken_eq_ok]
  constructor
  · rintro ⟨header, payload, signature, hs, hauth⟩
    rw [split_segments, List.cons.injEq, List.cons.injEq, List.cons.injEq] at hs
    obtain ⟨rfl, rfl, rfl, -⟩ := hs
    have hd : d = issuedPayload settings subject issued expires random := by
      obtain ⟨b, hb', hv⟩ := hauth.loaded
      rw [hpb, Except.ok.injEq] at hb'
      subst hb'
      rw [hpv, Except.ok.injEq, Obj.dict.injEq] at hv
      exact hv.symm
    subst hd
    have hi := hauth.issuer
    have ha := hauth.audience
    obtain ⟨exp, he, hlt⟩ := hauth.expiry
    obtain ⟨sub, hs, htruthy⟩ := hauth.subject
    rw [hiss, Option.some.injEq, Obj.str.injEq] at hi
    rw [haud, Option.some.injEq, Obj.str.injEq] at ha
    rw [hexp, Option.getD_some, Obj.toInt, Except.ok.injEq] at he
    rw [hsub, Option.some.injEq] at hs
    subst he hs
    exact ⟨rfl, (str_injective hi).symm, (str_injective ha).symm, hlt, hempty.mp htruthy⟩
  · rintro ⟨rfl, hi, ha, hlt, hne⟩
    refine ⟨_, _, _, split_segments _ _ _, ⟨input, hinput, ?_⟩, ⟨hb, _, hhb, hhv, rfl⟩,
      ⟨pb, hpb, hpv⟩, ?_, ?_, ⟨_, ?_, hlt⟩, ⟨_, hsub, hempty.mpr hne⟩⟩
    · rw [hsecret, b64decode_b64encode]
    · rw [hi, hiss]
    · rw [ha, haud]
    · rw [hexp]
      rfl

/-- Under the same secret no other text has the signature of a token, as far as the MAC does not
collide. -/
theorem altered_ne_ok (hfree : Function.Injective (hmac (utf8 settings.jwtSecret.toList)))
    (h : createAccessToken hmac settings subject issued random = .ok (token, expires))
    {signed signature altered : Str} (htoken : token = dotted signed signature)
    (hdot : .scalar '.' ∉ signature) (hne : altered ≠ signed) :
    decodeAccessToken hmac u settings now (dotted altered signature) ≠ .ok d := by
  intro hd
  obtain ⟨header, payload, signature', hs, hauth⟩ := decodeAccessToken_eq_ok.mp hd
  obtain ⟨_, input, hinput, htoken'⟩ := createAccessToken_eq_ok.mp h
  have hsigned := dotted_inj hdot (notMem_b64encode (by decide)) (htoken.symm.trans htoken')
  rw [split_dotted hdot] at hs
  obtain ⟨hsplit, hlast⟩ : split '.' altered = [header, payload] ∧ [signature] = [signature'] :=
    List.append_inj' hs rfl
  have haltered := eq_dotted_of_split hsplit
  obtain ⟨input', hinput', hsig⟩ := hauth.signature
  have hmac_eq : hmac (utf8 settings.jwtSecret.toList) input =
      hmac (utf8 settings.jwtSecret.toList) input' := by
    rw [← List.singleton_inj.mp hlast, hsigned.2, b64decode_b64encode] at hsig
    exact Except.ok.inj hsig
  rw [← haltered, ← hfree hmac_eq] at hinput'
  rw [← hsigned.1] at hinput
  exact hne (encode_inj hinput' hinput)

theorem exists_createAccessToken (hmac : Bytes → Bytes → Bytes) {settings : JwtSettings}
    (subject : String) {issued expires : Datetime} (random : Bytes)
    (h : issued.addMinutes settings.jwtTtlMinutes = .ok expires) :
    ∃ token, createAccessToken hmac settings subject issued random = .ok (token, expires) := by
  obtain ⟨input, hinput⟩ := exists_encode_dotted (utf8 accessHeader.dumps.toList) (utf8
    (accessPayload settings subject issued.seconds expires.seconds
      (tokenUrlsafe random)).dumps.toList)
  exact ⟨_, createAccessToken_eq_ok.mpr ⟨h, input, hinput, rfl⟩⟩

end Issued

namespace Example

def jwt : JwtSettings := ⟨"secret", "ioka", "api", 60⟩

def signed : String :=
  "eyJhbGciOiJIUzI1NiIsInR5cCI6IkpXVCJ9.eyJzdWIiOiJhZG1pbiIsImlzcyI6Imlva2EiLC" ++
  "JhdWQiOiJhcGkiLCJpYXQiOjAsImV4cCI6MzYwMCwianRpIjoiQUFFQ0F3UUZCZ2NJQ1FvTERBME9EdyJ9"

def jwtSignature : String := "KvwVZ6JUvDPOeFBsu9Ilzvu5TFHukolHjZ2YBv2mDfk"

/-- A MAC without collisions that is HMAC-SHA256 under "secret" on the text above. -/
def hmacSha256 (_ : Bytes) : Bytes → Bytes :=
  Equiv.swap (utf8 signed.toList) [42, 252, 21, 103, 162, 84, 188, 51, 206, 120, 80, 108, 187, 210,
    37, 206, 251, 185, 76, 81, 238, 146, 137, 71, 141, 157, 152, 6, 253, 166, 13, 249]

def midnight : Datetime := ⟨0, by decide⟩

def oneOClock : Datetime := ⟨3600 * 10 ^ 6, by decide⟩

def drawn : Bytes := [0, 1, 2, 3, 4, 5, 6, 7, 8, 9, 10, 11, 12, 13, 14, 15]

theorem createAccessToken_admin : createAccessToken hmacSha256 jwt "admin" midnight drawn =
    .ok (dotted (str signed) (str jwtSignature), oneOClock) := by
  decide +kernel

end Example

/-- What is decoded is signed under the secret, for the issuer and audience of the settings, not
expired and not without a subject; the rest raises an `AuthenticationError`. So a token is the only
string with its signature, and it is of no use to another issuer or audience. -/
theorem token_sound (hmac : Bytes → Bytes → Bytes) (u : UnicodeData) :
    (∀ settings now token payload, decodeAccessToken hmac u settings now token = .ok payload →
      ∃ header body signature exp, split '.' token = [header, body, signature] ∧
        Authentic hmac u settings now header body signature payload ∧
        ((get payload "exp").getD (.int 0)).toInt u = .ok exp ∧ now.floor < exp) ∧
    (∀ settings now token e, decodeAccessToken hmac u settings now token = .error e →
      ∃ message, e = .authentication message) ∧
    ((∀ key, Function.Injective (hmac key)) → ∀ settings subject issued random token expires,
      createAccessToken hmac settings subject issued random = .ok (token, expires) →
      ∀ signed signature, token = dotted signed signature → .scalar '.' ∉ signature →
      ∀ altered, altered ≠ signed → ∀ now, ∃ message,
        decodeAccessToken hmac u settings now (dotted altered signature) =
          .error (.authentication message)) ∧
    (∀ settings subject issued random token expires,
      createAccessToken hmac settings subject issued random = .ok (token, expires) →
      ∀ settings', settings'.jwtSecret = settings.jwtSecret →
      settings'.jwtIssuer ≠ settings.jwtIssuer ∨ settings'.jwtAudience ≠ settings.jwtAudience →
      ∀ now, ∃ message,
        decodeAccessToken hmac u settings' now token = .error (.authentication message)) := by
  refine ⟨?_, fun _ _ _ _ => decodeAccessToken_eq_error, ?_, ?_⟩
  · intro settings now token payload h
    obtain ⟨header, body, signature, hs, hauth⟩ := decodeAccessToken_eq_ok.mp h
    obtain ⟨exp, hexp, hlt⟩ := hauth.expiry
    exact ⟨header, body, signature, exp, hs, hauth, hexp, now.floor_le_seconds.trans_lt hlt⟩
  · intro hfree settings subject issued random token expires h signed signature htoken hdot altered
      hne now
    exact rejected fun _ => altered_ne_ok (hfree _) h htoken hdot hne
  · intro settings subject issued random token expires h settings' hsecret hother now
    refine rejected fun d hd => ?_
    obtain ⟨_, hiss, haud, _⟩ := (decode_issued hsecret h).mp hd
    exact hother.elim (absurd hiss) (absurd haud)

theorem token_sound_admin :
    (∃ header body signature exp,
      split '.' (dotted (str Example.signed) (str Example.jwtSignature)) =
        [header, body, signature] ∧
      Authentic Example.hmacSha256 asciiData Example.jwt Example.midnight header body signature
        (issuedPayload Example.jwt "admin" Example.midnight Example.oneOClock Example.drawn) ∧
      Example.midnight.floor < exp) ∧
    (∃ message, decodeAccessToken Example.hmacSha256 asciiData Example.jwt Example.midnight [] =
      .error (.authentication message)) ∧
    (∃ message, decodeAccessToken Example.hmacSha256 asciiData Example.jwt Example.midnight
      (dotted (str "admin") (str Example.jwtSignature)) = .error (.authentication message)) ∧
    ∃ message, decodeAccessToken Example.hmacSha256 asciiData ⟨"secret", "ioka", "web", 60⟩
      Example.midnight (dotted (str Example.signed) (str Example.jwtSignature)) =
        .error (.authentication message) := by
  obtain ⟨hok, herror, haltered, hother⟩ := token_sound Example.hmacSha256 asciiData
  have hcreate := Example.createAccessToken_admin
  refine ⟨?_, ?_, ?_, ?_⟩
  · obtain ⟨header, body, signature, exp, hs, hauth, _, hlt⟩ := hok _ _ _ _
      ((decode_issued rfl hcreate).mpr ⟨rfl, rfl, rfl,
        (by decide +kernel : Example.midnight.seconds < Example.oneOClock.seconds), by decide⟩)
    exact ⟨header, body, signature, exp, hs, hauth, hlt⟩
  · obtain ⟨message, he⟩ := herror Example.jwt Example.midnight [] _ rfl
    exact ⟨message, congrArg Except.error he⟩
  · exact haltered (fun _ => Equiv.injective _) _ _ _ _ _ _ hcreate _ _ rfl
      (by decide +kernel) _ (by decide +kernel) _
  · exact hother _ _ _ _ _ _ hcreate ⟨"secret", "ioka", "web", 60⟩ rfl (.inr (by decide)) _

/-- A token is decoded to the payload it was issued with until the whole seconds of the clock reach
those of its expiry. Both are the floor for an expiry up to the year 2514. -/
theorem token_round_trip (hmac : Bytes → Bytes → Bytes) (u : UnicodeData) {settings : JwtSettings}
    {subject : String} {issued expires : Datetime} {random : Bytes} {token : Str}
    (hsubject : subject ≠ "") (hissued : 0 ≤ issued.micros)
    (h : createAccessToken hmac settings subject issued random = .ok (token, expires))
    {t : Datetime} (ht : issued.micros ≤ t.micros) :
    (t.seconds < expires.seconds → decodeAccessToken hmac u settings t token =
      .ok (issuedPayload settings subject issued expires random)) ∧
    (expires.seconds ≤ t.seconds → ∃ message,
      decodeAccessToken hmac u settings t token = .error (.authentication message)) ∧
    (expires.micros < 2 ^ 34 * 10 ^ 6 →
      (t.floor < expires.floor → decodeAccessToken hmac u settings t token =
        .ok (issuedPayload settings subject issued expires random)) ∧
      (expires.floor ≤ t.floor → ∃ message,
        decodeAccessToken hmac u settings t token = .error (.authentication message))) := by
  have hvalid : t.seconds < expires.seconds → decodeAccessToken hmac u settings t token =
      .ok (issuedPayload settings subject issued expires random) :=
    fun hlt => (decode_issued rfl h).mpr ⟨rfl, rfl, rfl, hlt, hsubject⟩
  have hexpired : expires.seconds ≤ t.seconds → ∃ message,
      decodeAccessToken hmac u settings t token = .error (.authentication message) :=
    fun hle => rejected fun _ hd => ((decode_issued rfl h).mp hd).2.2.2.1.not_ge hle
  refine ⟨hvalid, hexpired, fun hsmall => ⟨fun hlt => hvalid ?_, fun hle => hexpired ?_⟩⟩
  · have hmicros : t.micros < expires.micros := by
      unfold Datetime.floor at hlt
      omega
    rw [Datetime.seconds_eq_floor (by omega) (by omega),
      Datetime.seconds_eq_floor (by omega) hsmall]
    exact hlt
  · rcases lt_or_ge expires.micros 0 with hneg | hpos
    · exact (Datetime.seconds_nonpos hneg.le).trans (Datetime.seconds_nonneg (by omega))
    · rw [Datetime.seconds_eq_floor hpos hsmall]
      exact hle.trans t.floor_le_seconds

/-- The token is valid at first and has expired an hour later. -/
theorem token_round_trip_admin :
    decodeAccessToken Example.hmacSha256 asciiData Example.jwt Example.midnight
      (dotted (str Example.signed) (str Example.jwtSignature)) =
      .ok (issuedPayload Example.jwt "admin" Example.midnight Example.oneOClock Example.drawn) ∧
    ∃ message, decodeAccessToken Example.hmacSha256 asciiData Example.jwt Example.oneOClock
      (dotted (str Example.signed) (str Example.jwtSignature)) =
        .error (.authentication message) := by
  have hcreate := Example.createAccessToken_admin
  constructor
  · exact (token_round_trip Example.hmacSha256 asciiData (by decide) (by decide) hcreate
      (le_refl _)).1 (by decide +kernel)
  · exact ((token_round_trip Example.hmacSha256 asciiData (by decide) (by decide) hcreate
      (by decide : Example.midnight.micros ≤ Example.oneOClock.micros)).2.2 (by decide)).2 le_rfl

/-- A microsecond before the expiry of a token of the year 2514, `int(t.timestamp())` has reached
it. -/
theorem not_token_round_trip_floor : ¬ ∀ (hmac : Bytes → Bytes → Bytes) (u : UnicodeData)
    (settings : JwtSettings) (subject : String) (issued expires : Datetime) (random : Bytes)
    (token : Str), subject ≠ "" → 0 ≤ issued.micros →
    createAccessToken hmac settings subject issued random = .ok (token, expires) →
    ∀ t : Datetime, issued.micros ≤ t.micros →
    (t.floor < expires.floor → decodeAccessToken hmac u settings t token =
      .ok (issuedPayload settings subject issued expires random)) ∧
    (expires.floor ≤ t.floor → ∃ message,
      decodeAccessToken hmac u settings t token = .error (.authentication message)) := by
  intro hall
  let settings : JwtSettings := ⟨"secret", "ioka", "api", 1⟩
  let issued : Datetime := ⟨2 ^ 34 * 10 ^ 6, by decide⟩
  let expires : Datetime := ⟨(2 ^ 34 + 60) * 10 ^ 6, by decide⟩
  obtain ⟨token, hcreate⟩ := exists_createAccessToken Example.hmacSha256 "admin" Example.drawn
    (by decide : issued.addMinutes settings.jwtTtlMinutes = .ok expires)
  have hok := (hall _ asciiData _ _ _ _ _ _ (by decide) (by decide) hcreate
    ⟨(2 ^ 34 + 60) * 10 ^ 6 - 1, by decide⟩ (by decide)).1 (by decide)
  exact absurd ((decode_issued rfl hcreate).mp hok).2.2.2.1 (by decide +kernel)

end Ioka
