import Ioka.Database.Models
import Ioka.Security.Password
import Ioka.Security.Token
import Ioka.Transition.Machine

/-! # The access of agents

A login is answered by a token, which stands for the agent until it expires, as long as the agent is
active. As far as signatures cannot be forged, nobody is taken for an agent without a token from a
login of that agent.
-/

namespace Ioka

open Python Transition

/-- The rows of agents with the columns that logins read. -/
structure Account extends Agent where
  email : String
  passwordHash : Str
  isActive : Bool
  deriving DecidableEq

structure LoginRequest where
  email : String
  password : String

structure TokenResponse where
  accessToken : Str
  tokenType : String
  expiresAt : Datetime
  deriving DecidableEq

structure HTTPAuthorizationCredentials where
  scheme : String
  credentials : Str

/-- The settings and the functions of other packages: `str.lower`, and what the driver makes of an
identity that is not a string. -/
structure Environment where
  settings : JwtSettings
  hmac : Bytes → Bytes → Bytes
  pbkdf2 : Bytes → Bytes → ℕ → Bytes
  unicode : UnicodeData
  lower : String → String
  identity : Obj → Except Exc (Option Account)

section Functions

variable (env : Environment) (agents : List Account)

/-- `session.get(Agent, ident)` -/
def getAgent : Obj → Except Exc (Option Account)
  | .str ident => do
    let _ ← encode ident
    return agents.find? (str ·.id = ident)
  | ident => env.identity ident

/-- `login`, with the time that it read and the random bytes that it drew. -/
def login (payload : LoginRequest) (now : Datetime) (random : Bytes) :
    Except TokenError TokenResponse :=
  match agents.find? (·.email = env.lower payload.email) with
  | none => .error (.authentication "Invalid email or password")
  | some agent => do
    require agent.isActive "Invalid email or password"
    let verified ← raising (verifyPassword env.pbkdf2 env.unicode (str payload.password)
      agent.passwordHash)
    require verified "Invalid email or password"
    let (token, expiresAt) ← raising (createAccessToken env.hmac env.settings agent.id now random)
    return ⟨token, "bearer", expiresAt⟩

/-- `get_current_agent`, at the time that the decoder reads. -/
def getCurrentAgent (now : Datetime) :
    Option HTTPAuthorizationCredentials → Except TokenError Account
  | none => .error (.authentication "Bearer token is required")
  | some c => do
    require (env.lower c.scheme = "bearer") "Bearer token is required"
    let payload ← decodeAccessToken env.hmac env.unicode env.settings now c.credentials
    -- The subject of a decoded payload is there, so that this is no `KeyError`.
    let sub := (get payload "sub").getD .none
    match ← raising (getAgent env agents sub) with
    | none => .error (.authentication "Agent is inactive or does not exist")
    | some agent => do
      require agent.isActive "Agent is inactive or does not exist"
      return agent

end Functions

/-- What a login shows of the account. -/
structure Admits (env : Environment) (agents : List Account) (payload : LoginRequest)
    (account : Account) : Prop where
  found : agents.find? (·.email = env.lower payload.email) = some account
  active : account.isActive = true
  verified : verifyPassword env.pbkdf2 env.unicode (str payload.password) account.passwordHash =
    .ok true

section Errors

variable {α : Type} {e : TokenError}

end Errors

section Outcomes

variable {env : Environment} {agents : List Account} {payload : LoginRequest} {now : Datetime}
  {random : Bytes} {r : TokenResponse} {agent : Account}

theorem login_eq_ok : login env agents payload now random = .ok r ↔
    ∃ account, Admits env agents payload account ∧ r.tokenType = "bearer" ∧
      createAccessToken env.hmac env.settings account.id now random =
        .ok (r.accessToken, r.expiresAt) := by
  unfold login
  constructor
  · intro h
    split at h
    · cases h
    · rename_i account hfound
      simp only [bind_eq_ok, raising_eq_ok, require_eq_ok, pure, Except.pure, Except.ok.injEq,
        Prod.exists] at h
      obtain ⟨_, hactive, _, hverified, _, rfl, token, expires, hcreate, rfl⟩ := h
      exact ⟨account, ⟨hfound, hactive, hverified⟩, rfl, hcreate⟩
  · rintro ⟨account, ⟨hfound, hactive, hverified⟩, htype, hcreate⟩
    obtain ⟨token, type, expires⟩ := r
    obtain rfl : type = "bearer" := htype
    simp only [hfound, bind_eq_ok, raising_eq_ok, require_eq_ok, pure, Except.pure,
      Except.ok.injEq, Prod.exists]
    exact ⟨(), hactive, true, hverified, (), rfl, token, expires, hcreate, rfl⟩

theorem getCurrentAgent_eq_ok {c : HTTPAuthorizationCredentials} :
    getCurrentAgent env agents now (some c) = .ok agent ↔
      env.lower c.scheme = "bearer" ∧ ∃ payload,
        decodeAccessToken env.hmac env.unicode env.settings now c.credentials = .ok payload ∧
        getAgent env agents ((get payload "sub").getD .none) = .ok (some agent) ∧
        agent.isActive = true := by
  simp only [getCurrentAgent, bind_eq_ok, require_eq_ok, decide_eq_true_eq, raising_eq_ok]
  constructor
  · rintro ⟨_, hscheme, d, hd, found, hfound, h⟩
    cases found with
    | none => cases h
    | some a =>
      simp only [bind_eq_ok, require_eq_ok, pure, Except.pure, Except.ok.injEq] at h
      obtain ⟨_, hactive, rfl⟩ := h
      exact ⟨hscheme, d, hd, hfound, hactive⟩
  · rintro ⟨hscheme, d, hd, hfound, hactive⟩
    refine ⟨(), hscheme, d, hd, some agent, hfound, ?_⟩
    simp only [bind_eq_ok, require_eq_ok, pure, Except.pure]
    exact ⟨(), hactive, trivial⟩

theorem getAgent_str (id : String) : getAgent env agents (.str (str id)) =
    .ok (agents.find? (·.id = id)) := by
  have hkey : (fun a : Account => decide (str a.id = str id)) = fun a => decide (a.id = id) := by
    funext a
    simp only [str_injective.eq_iff]
  rw [getAgent, str, encode_text, ← str, hkey]
  rfl

end Outcomes

/-! ## Logins over time -/

/-- The rows of agents, and the answers to all logins so far. -/
structure Gate where
  agents : List Account
  issued : List TokenResponse

inductive GateAction
  | login (payload : LoginRequest) (now : Datetime) (random : Bytes)
  /-- The rows are written from elsewhere. -/
  | write (agents : List Account)

def gate (env : Environment) : Machine Gate GateAction where
  step g
    | .login payload now random => match login env g.agents payload now random with
      | .ok r => some { g with issued := g.issued ++ [r] }
      | .error _ => some g
    | .write agents => some { g with agents }

/-- In the actions there is a login of the account that was answered with this token. -/
def LoggedIn (env : Environment) (agents : List Account) (as : List GateAction)
    (account : Account) (r : TokenResponse) : Prop :=
  ∃ before payload now random after g, as = before ++ .login payload now random :: after ∧
    (gate env).Run ⟨agents, []⟩ before g ∧ Admits env g.agents payload account ∧
    login env g.agents payload now random = .ok r

/-- Without the secret nobody signs a text that has not been signed: a token with a right signature
is, up to how the signature is written, one that was issued. -/
def Unforged (env : Environment) (issued : List TokenResponse) (token : Str) : Prop :=
  ∀ header payload signature signingInput, split '.' token = [header, payload, signature] →
    encode (dotted header payload) = .ok signingInput →
    b64decode signature = .ok (env.hmac (utf8 env.settings.jwtSecret.toList) signingInput) →
    ∃ r ∈ issued, ∃ signature', split '.' r.accessToken = [header, payload, signature']

section Runs

variable {env : Environment} {agents : List Account} {as : List GateAction} {a : GateAction}
  {g g' : Gate} {account agent : Account} {r : TokenResponse} {now : Datetime}

theorem LoggedIn.created (h : LoggedIn env agents as account r) : ∃ issued random,
    createAccessToken env.hmac env.settings account.id issued random =
      .ok (r.accessToken, r.expiresAt) := by
  obtain ⟨_, payload, issued, random, _, g, _, _, hadmits, hlogin⟩ := h
  obtain ⟨account', hadmits', _, hcreate⟩ := login_eq_ok.mp hlogin
  obtain rfl : account' = account := Option.some.inj (hadmits'.found.symm.trans hadmits.found)
  exact ⟨issued, random, hcreate⟩

theorem getAgent_issuedPayload {settings : JwtSettings} {subject : String}
    {issued expires : Datetime} {random : Bytes} : getAgent env agents
      ((get (issuedPayload settings subject issued expires random) "sub").getD .none) =
      .ok (agents.find? (·.id = subject)) := by
  rw [(get_issuedPayload settings subject issued expires random).1, Option.getD_some, getAgent_str]

theorem accepted_iff {subject scheme : String} {token : Str} {issued expires : Datetime}
    {random : Bytes} {rows : List Account} (hscheme : env.lower scheme = "bearer")
    (hcreate : createAccessToken env.hmac env.settings subject issued random =
      .ok (token, expires)) :
    getCurrentAgent env rows now (some ⟨scheme, token⟩) = .ok agent ↔
      subject ≠ "" ∧ now.seconds < expires.seconds ∧
      rows.find? (·.id = subject) = some agent ∧ agent.isActive = true := by
  rw [getCurrentAgent_eq_ok]
  simp only [decode_issued rfl hcreate]
  constructor
  · rintro ⟨_, d, ⟨rfl, _, _, hlt, hne⟩, hfound, hactive⟩
    rw [getAgent_issuedPayload, Except.ok.injEq] at hfound
    exact ⟨hne, hlt, hfound, hactive⟩
  · rintro ⟨hne, hlt, hfound, hactive⟩
    refine ⟨hscheme, _, ⟨rfl, trivial, trivial, hlt, hne⟩, ?_, hactive⟩
    rw [getAgent_issuedPayload, hfound]

theorem LoggedIn.accepted_iff (h : LoggedIn env agents as account r) {scheme : String}
    (hscheme : env.lower scheme = "bearer") {rows : List Account} :
    getCurrentAgent env rows now (some ⟨scheme, r.accessToken⟩) = .ok agent ↔
      account.id ≠ "" ∧ now.seconds < r.expiresAt.seconds ∧
      rows.find? (·.id = account.id) = some agent ∧ agent.isActive = true := by
  obtain ⟨issued, random, hcreate⟩ := h.created
  exact Ioka.accepted_iff hscheme hcreate

theorem decoded_of_unforged {tokens : List TokenResponse} {token : Str} {d : Dict}
    (hunforged : Unforged env tokens token)
    (hd : decodeAccessToken env.hmac env.unicode env.settings now token = .ok d) :
    ∃ r ∈ tokens, ∀ subject issued random,
      createAccessToken env.hmac env.settings subject issued random =
        .ok (r.accessToken, r.expiresAt) →
      d = issuedPayload env.settings subject issued r.expiresAt random ∧
        now.seconds < r.expiresAt.seconds := by
  obtain ⟨header, payload, signature, hs, hauth⟩ := decodeAccessToken_eq_ok.mp hd
  obtain ⟨input, hinput, hsig⟩ := hauth.signature
  obtain ⟨r, hr, signature', hs'⟩ := hunforged header payload signature input hs hinput hsig
  refine ⟨r, hr, ?_⟩
  intro subject issued random hcreate
  obtain ⟨_, input', _, htoken⟩ := createAccessToken_eq_ok.mp hcreate
  rw [htoken, split_segments, List.cons.injEq, List.cons.injEq] at hs'
  obtain ⟨rfl, rfl, _⟩ := hs'
  obtain ⟨pb, hpb, hpv⟩ := loads_payload env.settings subject issued r.expiresAt random
  obtain ⟨b, hb, hv⟩ := hauth.loaded
  rw [hpb, Except.ok.injEq] at hb
  subst hb
  rw [hpv, Except.ok.injEq, Obj.dict.injEq] at hv
  subst hv
  obtain ⟨exp, hexp, hlt⟩ := hauth.expiry
  rw [(get_issuedPayload env.settings subject issued r.expiresAt random).2.2.2,
    Option.getD_some, Obj.toInt, Except.ok.injEq] at hexp
  subst hexp
  exact ⟨rfl, hlt⟩

/-- The agent that an unforged token stands for is the subject of an issued one. -/
theorem accepted_of_unforged {tokens : List TokenResponse} {rows : List Account}
    {c : HTTPAuthorizationCredentials} (hunforged : Unforged env tokens c.credentials)
    (hok : getCurrentAgent env rows now (some c) = .ok agent) :
    ∃ r ∈ tokens, ∀ subject issued random,
      createAccessToken env.hmac env.settings subject issued random =
        .ok (r.accessToken, r.expiresAt) →
      agent ∈ rows ∧ agent.id = subject ∧ now.seconds < r.expiresAt.seconds := by
  obtain ⟨_, d, hd, hfound, _⟩ := getCurrentAgent_eq_ok.mp hok
  obtain ⟨r, hr, hpayload⟩ := decoded_of_unforged hunforged hd
  refine ⟨r, hr, ?_⟩
  intro subject issued random hcreate
  obtain ⟨rfl, hlt⟩ := hpayload subject issued random hcreate
  rw [getAgent_issuedPayload, Except.ok.injEq] at hfound
  exact ⟨List.mem_of_find?_eq_some hfound, by simpa using List.find?_some hfound, hlt⟩

end Runs

namespace Example

def environment : Environment :=
  ⟨jwt, hmacSha256, fun password salt _ => password ++ salt, asciiData, String.toLower,
    fun _ => .ok none⟩

def admin : Account where
  id := "admin"
  balance := 0
  currency := "UZS"
  email := "agent@example.com"
  passwordHash := storedPassword drawn (utf8 "abc12345!".toList ++ drawn)
  isActive := true

def answer : TokenResponse := ⟨dotted (str signed) (str jwtSignature), "bearer", oneOClock⟩

theorem admits_admin : Admits environment [admin] ⟨"Agent@example.com", "abc12345!"⟩ admin where
  found := by decide +kernel
  active := rfl
  verified := by
    rw [verifyPassword, str, admin, verifyFields_storedPassword]
    rfl

end Example

end Ioka
