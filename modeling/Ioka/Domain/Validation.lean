import Ioka.Domain.Schemas
import Ioka.Python.Object
import Ioka.Python.Strip

/-! # Validation of request bodies

A body is validated field by field. The length of a string is checked as it was sent,
and what is stored is stripped and in upper case, so that a stored string has the
declared length exactly if the two changes make up for each other. The parsers of
dates and integers and the Unicode database are arbitrary.
-/

namespace Ioka

open Python

/-- The kind of an error, with its bound or its message. -/
inductive ErrorKind
  | missing
  | modelAttributesType
  | stringType
  | stringUnicode
  | stringTooShort (minLength : ℕ)
  | stringTooLong (maxLength : ℕ)
  | literalError
  | greaterThanEqual (ge : ℤ)
  | lessThanEqual (le : ℤ)
  | valueError (message : String)
  | parsing (type : String)
  deriving DecidableEq

/-- An error and the path of the field it is about. -/
structure FieldError where
  loc : List String
  kind : ErrorKind
  deriving DecidableEq

/-- The library's parsers of the types that are no strings. -/
structure Parsers where
  date : Obj → Except ErrorKind Date
  int : Obj → Except ErrorKind ℤ

section Fields

variable {α : Type}

/-- The errors inside a field, with its name in front of their paths. -/
def within (name : String) : Except (List FieldError) α → Except (List FieldError) α :=
  Except.mapError (List.map fun e => ⟨name :: e.loc, e.kind⟩)

/-- The error of a value that is not looked into. -/
def plain (parse : Obj → Except ErrorKind α) (x : Obj) : Except (List FieldError) α :=
  (parse x).mapError fun kind => [⟨[], kind⟩]

def required (name : String) (parse : Obj → Except (List FieldError) α) (raw : Dict) :
    Except (List FieldError) α :=
  match get raw name with
  | none => .error [⟨[name], .missing⟩]
  | some x => within name (parse x)

def optional (name : String) (default : α) (parse : Obj → Except (List FieldError) α) (raw : Dict) :
    Except (List FieldError) α :=
  match get raw name with
  | none => .ok default
  | some x => within name (parse x)

def errors : Except (List FieldError) α → List FieldError
  | .ok _ => []
  | .error es => es

/-- A value of type `str`. -/
def anyStr : Obj → Except ErrorKind (List Char)
  | .str s =>
    match scalars? s with
    | some cs => .ok cs
    | none => .error .stringUnicode
  | _ => .error .stringType

/-- `Field(min_length=minLength, max_length=maxLength)` of a `str`. -/
def boundedStr (minLength maxLength : ℕ) (x : Obj) : Except ErrorKind (List Char) := do
  let cs ← anyStr x
  if maxLength < cs.length then .error (.stringTooLong maxLength)
  else if cs.length < minLength then .error (.stringTooShort minLength)
  else .ok cs

end Fields

/-- A `str` field with bounds on its length. -/
structure StrField where
  name : String
  minLength : ℕ
  maxLength : ℕ

/-- The field of a body, with the validator that runs after its bounds are checked. -/
def StrField.validate (f : StrField) (validator : List Char → Except ErrorKind (List Char))
    (raw : Dict) : Except (List FieldError) String :=
  required f.name (plain fun x => do
    let value ← boundedStr f.minLength f.maxLength x
    let value ← validator value
    return .ofList value) raw

namespace Fields

def origin : StrField := ⟨"origin", 3, 3⟩

def destination : StrField := ⟨"destination", 3, 3⟩

def firstName : StrField := ⟨"first_name", 1, 100⟩

def lastName : StrField := ⟨"last_name", 1, 100⟩

def documentNumber : StrField := ⟨"document_number", 5, 32⟩

def citizenship : StrField := ⟨"citizenship", 2, 3⟩

end Fields

/-- `a < b` -/
def Date.before (a b : Date) : Bool :=
  a.year < b.year || a.year = b.year && (a.month < b.month || a.month = b.month && a.day < b.day)

section Validators

variable (u : UnicodeData)

def normalizeIata (value : List Char) : Except ErrorKind (List Char) :=
  let normalized := upper u (strip value)
  if isAlpha u normalized then .ok normalized
  else .error (.valueError "IATA code must contain only letters")

def stripText (value : List Char) : Except ErrorKind (List Char) := .ok (upper u (strip value))

def ensureNotInPast (today value : Date) : Except ErrorKind Date :=
  if value.before today then .error (.valueError "departure_date cannot be in the past")
  else .ok value

theorem Fields.default_adults : (1 : ℤ) ≤ 1 ∧ (1 : ℤ) ≤ 9 := by decide

/-- `Field(default=1, ge=1, le=9)` -/
def Fields.adults (parsers : Parsers) (x : Obj) : Except ErrorKind {n : ℤ // 1 ≤ n ∧ n ≤ 9} := do
  let n ← parsers.int x
  if h : 1 ≤ n ∧ n ≤ 9 then .ok ⟨n, h⟩
  else if n < 1 then .error (.greaterThanEqual 1)
  else .error (.lessThanEqual 9)

/-- `Literal["ECONOMY", "PREMIUM_ECONOMY", "BUSINESS"]` -/
def Fields.cabinClass (x : Obj) : Except ErrorKind CabinClass :=
  match [CabinClass.economy, .premiumEconomy, .business].find? fun c =>
    Obj.isStr (some x) (str c.value) with
  | some c => .ok c
  | none => .error .literalError

def SearchRequest.validate (parsers : Parsers) (today : Date) :
    Obj → Except (List FieldError) SearchRequest
  | .dict raw =>
    match Fields.origin.validate (normalizeIata u) raw,
      Fields.destination.validate (normalizeIata u) raw,
      required "departure_date" (plain fun x => do ensureNotInPast today (← parsers.date x)) raw,
      optional "adults" ⟨1, Fields.default_adults⟩ (plain (Fields.adults parsers)) raw,
      optional "cabin_class" .economy (plain Fields.cabinClass) raw with
    | .ok origin, .ok destination, .ok departureDate, .ok adults, .ok cabinClass =>
      .ok ⟨origin, destination, departureDate, adults, cabinClass, adults.2⟩
    | origin, destination, departureDate, adults, cabinClass =>
      .error (errors origin ++ errors destination ++ errors departureDate ++ errors adults ++
        errors cabinClass)
  | _ => .error [⟨[], .modelAttributesType⟩]

def Passenger.validate (parsers : Parsers) : Obj → Except (List FieldError) Passenger
  | .dict raw =>
    match Fields.firstName.validate (stripText u) raw, Fields.lastName.validate (stripText u) raw,
      required "birth_date" (plain parsers.date) raw,
      Fields.documentNumber.validate (stripText u) raw,
      required "document_expiry" (plain parsers.date) raw,
      Fields.citizenship.validate (stripText u) raw with
    | .ok firstName, .ok lastName, .ok birthDate, .ok documentNumber, .ok documentExpiry,
      .ok citizenship =>
      .ok ⟨firstName, lastName, birthDate, documentNumber, documentExpiry, citizenship⟩
    | firstName, lastName, birthDate, documentNumber, documentExpiry, citizenship =>
      .error (errors firstName ++ errors lastName ++ errors birthDate ++ errors documentNumber ++
        errors documentExpiry ++ errors citizenship)
  | _ => .error [⟨[], .modelAttributesType⟩]

def OrderCreate.validate (parsers : Parsers) : Obj → Except (List FieldError) OrderCreate
  | .dict raw =>
    match required "offer_id" (plain anyStr) raw,
      required "passenger" (Passenger.validate u parsers) raw with
    | .ok offerId, .ok passenger => .ok ⟨.ofList offerId, passenger⟩
    | offerId, passenger => .error (errors offerId ++ errors passenger)
  | _ => .error [⟨[], .modelAttributesType⟩]

end Validators

/-- The text of a field as it was sent. -/
def StrField.rawText (f : StrField) : Obj → List Char
  | .dict raw =>
    match get raw f.name with
    | some (.str s) => (scalars? s).getD []
    | _ => []
  | _ => []

/-- The length as it was sent, less the white space at the ends and with what upper case adds, is
within the bounds. -/
def StrField.Keeps (f : StrField) (u : UnicodeData) (raw : Obj) : Prop :=
  f.minLength + outerSpace (f.rawText raw) ≤ (f.rawText raw).length + gained u (f.rawText raw) ∧
    (f.rawText raw).length + gained u (f.rawText raw) ≤ f.maxLength + outerSpace (f.rawText raw)

section Accepted

variable {α : Type} {u : UnicodeData} {parsers : Parsers} {today : Date} {raw : Obj} {d : Dict}

theorem required_eq_ok {name : String} {parse : Obj → Except (List FieldError) α} {a : α} :
    required name parse d = .ok a ↔ ∃ x, get d name = some x ∧ parse x = .ok a := by
  unfold required
  split
  · rename_i h
    simp [h]
  · rename_i x h
    simp [h, within]

theorem boundedStr_eq_ok {minLength maxLength : ℕ} {x : Obj} {cs : List Char} :
    boundedStr minLength maxLength x = .ok cs ↔
      x = .str (text cs) ∧ minLength ≤ cs.length ∧ cs.length ≤ maxLength := by
  have hany : anyStr x = .ok cs ↔ x = .str (text cs) := by
    unfold anyStr
    split
    · rw [Obj.str.injEq, ← scalars?_eq_some]
      split <;> simp_all
    · rename_i h
      exact ⟨nofun, fun he => absurd he (h _)⟩
  rw [boundedStr, bind_eq_ok]
  constructor
  · rintro ⟨ds, hds, h⟩
    split_ifs at h with hmax hmin
    cases h
    exact ⟨hany.mp hds, by omega, by omega⟩
  · rintro ⟨hx, hmin, hmax⟩
    exact ⟨cs, hany.mpr hx, by rw [if_neg (by omega), if_neg (by omega)]⟩

theorem StrField.validate_eq_ok {f : StrField}
    {validator : List Char → Except ErrorKind (List Char)} {s : String} :
    f.validate validator d = .ok s ↔ ∃ cs, get d f.name = some (.str (text cs)) ∧
      f.minLength ≤ cs.length ∧ cs.length ≤ f.maxLength ∧ validator cs = .ok s.toList := by
  simp only [StrField.validate, required_eq_ok, plain, mapError_eq_ok, bind_eq_ok, boundedStr_eq_ok,
    pure, Except.pure, Except.ok.injEq]
  constructor
  · rintro ⟨_, hget, cs, ⟨rfl, hmin, hmax⟩, ds, hds, rfl⟩
    exact ⟨cs, hget, hmin, hmax, by rw [hds, String.toList_ofList]⟩
  · rintro ⟨cs, hget, hmin, hmax, hs⟩
    exact ⟨_, hget, cs, ⟨rfl, hmin, hmax⟩, _, hs, String.ofList_toList⟩

theorem normalizeIata_eq_ok {cs ds : List Char} (h : normalizeIata u cs = .ok ds) :
    ds = upper u (strip cs) := by
  simp only [normalizeIata] at h
  split_ifs at h
  exact (Except.ok.inj h).symm

theorem stripText_eq_ok {cs ds : List Char} (h : stripText u cs = .ok ds) :
    ds = upper u (strip cs) :=
  (Except.ok.inj h).symm

/-- The length of what is stored comes from the length of what was sent. -/
theorem StrField.length_validate {f : StrField}
    {validator : List Char → Except ErrorKind (List Char)} {s : String}
    (hvalidator : ∀ {cs ds}, validator cs = .ok ds → ds = upper u (strip cs))
    (h : f.validate validator d = .ok s) :
    f.minLength ≤ (f.rawText (.dict d)).length ∧ (f.rawText (.dict d)).length ≤ f.maxLength ∧
    (s.length : ℤ) + outerSpace (f.rawText (.dict d)) =
      (f.rawText (.dict d)).length + gained u (f.rawText (.dict d)) := by
  obtain ⟨cs, hget, hmin, hmax, hs⟩ := StrField.validate_eq_ok.mp h
  have hraw : f.rawText (.dict d) = cs := by
    simp only [StrField.rawText, hget, scalars?_text, Option.getD_some]
  rw [hraw, ← String.length_toList, hvalidator hs]
  exact ⟨hmin, hmax, length_upper_strip u cs⟩

/-- What is stored has the declared length exactly if what was sent keeps it. -/
theorem StrField.bounds_iff {f : StrField}
    {validator : List Char → Except ErrorKind (List Char)} {s : String}
    (hvalidator : ∀ {cs ds}, validator cs = .ok ds → ds = upper u (strip cs))
    (h : f.validate validator d = .ok s) :
    f.minLength ≤ s.length ∧ s.length ≤ f.maxLength ↔ f.Keeps u (.dict d) := by
  obtain ⟨_, _, hlen⟩ := f.length_validate hvalidator h
  unfold StrField.Keeps
  omega

theorem SearchRequest.validate_eq_ok {s : SearchRequest}
    (h : SearchRequest.validate u parsers today raw = .ok s) : ∃ d, raw = .dict d ∧
      Fields.origin.validate (normalizeIata u) d = .ok s.origin ∧
      Fields.destination.validate (normalizeIata u) d = .ok s.destination ∧
      ¬ s.departureDate.before today := by
  unfold SearchRequest.validate at h
  split at h
  · rename_i d
    split at h
    · rename_i origin destination departureDate adults cabinClass horigin hdestination hdate _ _
      cases h
      obtain ⟨x, _, hx⟩ := required_eq_ok.mp hdate
      obtain ⟨date, _, hpast⟩ := bind_eq_ok.mp (mapError_eq_ok.mp hx)
      unfold ensureNotInPast at hpast
      split_ifs at hpast with hbefore
      cases hpast
      exact ⟨d, rfl, horigin, hdestination, hbefore⟩
    · cases h
  · cases h

theorem Passenger.validate_eq_ok {p : Passenger}
    (h : Passenger.validate u parsers raw = .ok p) : ∃ d, raw = .dict d ∧
      Fields.firstName.validate (stripText u) d = .ok p.firstName ∧
      Fields.lastName.validate (stripText u) d = .ok p.lastName ∧
      Fields.documentNumber.validate (stripText u) d = .ok p.documentNumber ∧
      Fields.citizenship.validate (stripText u) d = .ok p.citizenship := by
  unfold Passenger.validate at h
  split at h
  · rename_i d
    split at h
    · rename_i hfirst hlast _ hnumber _ hcitizenship
      cases h
      exact ⟨d, rfl, hfirst, hlast, hnumber, hcitizenship⟩
    · cases h
  · cases h

end Accepted

/-- A field of an accepted body has its declared length exactly if the white space that was stripped
makes up for the characters that upper case added. -/
theorem validated_lengths_iff (u : UnicodeData) (parsers : Parsers) :
    (∀ today raw s, SearchRequest.validate u parsers today raw = .ok s →
      (s.origin.length = 3 ↔ outerSpace (Fields.origin.rawText raw) =
        gained u (Fields.origin.rawText raw)) ∧
      (s.destination.length = 3 ↔ outerSpace (Fields.destination.rawText raw) =
        gained u (Fields.destination.rawText raw))) ∧
    (∀ raw p, Passenger.validate u parsers raw = .ok p →
      (1 ≤ p.firstName.length ∧ p.firstName.length ≤ 100 ↔ Fields.firstName.Keeps u raw) ∧
      (1 ≤ p.lastName.length ∧ p.lastName.length ≤ 100 ↔ Fields.lastName.Keeps u raw) ∧
      (5 ≤ p.documentNumber.length ∧ p.documentNumber.length ≤ 32 ↔
        Fields.documentNumber.Keeps u raw) ∧
      (2 ≤ p.citizenship.length ∧ p.citizenship.length ≤ 3 ↔ Fields.citizenship.Keeps u raw)) := by
  constructor
  · intro today raw s h
    obtain ⟨d, rfl, horigin, hdestination, _⟩ := SearchRequest.validate_eq_ok h
    obtain ⟨ho₁, ho₂, ho⟩ := Fields.origin.length_validate normalizeIata_eq_ok horigin
    obtain ⟨hd₁, hd₂, hd⟩ := Fields.destination.length_validate normalizeIata_eq_ok hdestination
    simp only [Fields.origin, Fields.destination] at *
    omega
  · intro raw p h
    obtain ⟨d, rfl, hfirst, hlast, hnumber, hcitizenship⟩ := Passenger.validate_eq_ok h
    exact ⟨StrField.bounds_iff stripText_eq_ok hfirst, StrField.bounds_iff stripText_eq_ok hlast,
      StrField.bounds_iff stripText_eq_ok hnumber, StrField.bounds_iff stripText_eq_ok hcitizenship⟩

namespace Example

def today : Date := ⟨2027, 2, 3, by decide, by decide, by decide⟩

def later : Date := ⟨2031, 3, 4, by decide, by decide, by decide⟩

/-- The parsers, on the date above and on integers. -/
def parsers : Parsers where
  date
    | .str s => if s = str "2031-03-04" then .ok later else .error (.parsing "date_parsing")
    | _ => .error (.parsing "date_type")
  int
    | .int n => .ok n
    | _ => .error (.parsing "int_type")

def searchBody (origin : String) : Obj := .dict [(str "origin", .str (str origin)),
  (str "destination", .str (str "led")), (str "departure_date", .str (str "2031-03-04"))]

def passengerBody (documentNumber : String) : Obj := .dict [(str "first_name", .str (str "Ann")),
  (str "last_name", .str (str "Lee")), (str "birth_date", .str (str "2031-03-04")),
  (str "document_number", .str (str documentNumber)),
  (str "document_expiry", .str (str "2031-03-04")), (str "citizenship", .str (str "kz"))]

theorem validate_ala : SearchRequest.validate asciiData parsers today (searchBody "ala") =
    .ok ⟨"ALA", "LED", later, 1, .economy, by decide⟩ := by
  decide +kernel

theorem validate_n12345 : Passenger.validate asciiData parsers (passengerBody "n12345") =
    .ok ⟨"ANN", "LEE", later, "N12345", later, "KZ"⟩ := by
  decide +kernel

end Example

/-- Texts without white space at the ends are stored with the declared lengths. -/
theorem validated_lengths_iff_trimmed :
    (outerSpace (Fields.origin.rawText (Example.searchBody "ala")) =
      gained asciiData (Fields.origin.rawText (Example.searchBody "ala")) ∧ "ALA".length = 3) ∧
    Fields.documentNumber.Keeps asciiData (Example.passengerBody "n12345") := by
  obtain ⟨hsearch, hpassenger⟩ := validated_lengths_iff asciiData Example.parsers
  have horigin := (hsearch _ _ _ Example.validate_ala).1
  have hnumber := (hpassenger _ _ Example.validate_n12345).2.2.1
  exact ⟨⟨horigin.mp rfl, rfl⟩, hnumber.mp (by decide)⟩

/-- Blanks count for the bounds of the raw text and are not stored. -/
theorem not_validated_lengths_blank : (¬ ∀ (u : UnicodeData) (parsers : Parsers) (today : Date)
      (raw : Obj) (s : SearchRequest), SearchRequest.validate u parsers today raw = .ok s →
      s.origin.length = 3 ∧ s.destination.length = 3) ∧
    ¬ ∀ (u : UnicodeData) (parsers : Parsers) (raw : Obj) (p : Passenger),
      Passenger.validate u parsers raw = .ok p →
      (1 ≤ p.firstName.length ∧ p.firstName.length ≤ 100) ∧
      (1 ≤ p.lastName.length ∧ p.lastName.length ≤ 100) ∧
      (5 ≤ p.documentNumber.length ∧ p.documentNumber.length ≤ 32) ∧
      2 ≤ p.citizenship.length ∧ p.citizenship.length ≤ 3 := by
  constructor
  · intro hall
    have hok : SearchRequest.validate asciiData Example.parsers Example.today
        (Example.searchBody " al") = .ok ⟨"AL", "LED", Example.later, 1, .economy, by decide⟩ := by
      decide +kernel
    exact absurd (hall _ _ _ _ _ hok).1 (by decide)
  · intro hall
    have hok : Passenger.validate asciiData Example.parsers (Example.passengerBody "   n1") =
        .ok ⟨"ANN", "LEE", Example.later, "N1", Example.later, "KZ"⟩ := by
      decide +kernel
    exact absurd (hall _ _ _ _ hok).2.2.1 (by decide)

end Ioka
