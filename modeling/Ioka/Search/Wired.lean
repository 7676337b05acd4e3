import Ioka.Platform.Service
import Ioka.Search.Message
import Ioka.Transition.Simulation

/-! # The service over texts

The cache is a Redis with JSON texts that expire, and a message is a JSON text in UTF-8. The service
that writes and reads those texts takes the same steps as the one over dictionaries and ids, if the
texts are read back and an expired entry counts as one that is not available.
-/

namespace Ioka

open Python Relational Transition

/-- A Redis server, as far as the cache uses it: its two commands, each at a time of its clock. -/
structure Redis (ρ : Type) where
  empty : ρ
  /-- `GET` -/
  get (store : ρ) (key : String) (now : Time) : Option (List Char)
  /-- `SETEX`, where `none` is the error reply, as for a time to live that is not positive. -/
  setex (store : ρ) (key : String) (seconds : ℤ) (value : List Char) (now : Time) : Option ρ

namespace Redis

variable {ρ : Type}

/-- `GET` returns what was stored last under the key, or nothing. -/
structure Faithful (redis : Redis ρ) : Prop where
  get_empty (key : String) (now : Time) : redis.get redis.empty key now = none
  get_self {store store' : ρ} {key : String} {seconds : ℤ} {value found : List Char}
    {now now' : Time} : redis.setex store key seconds value now = some store' → now ≤ now' →
    redis.get store' key now' = some found → found = value
  get_other {store store' : ρ} {key key' : String} {seconds : ℤ} {value found : List Char}
    {now now' : Time} : redis.setex store key seconds value now = some store' → key' ≠ key →
    now ≤ now' → redis.get store' key' now' = some found → redis.get store key' now' = some found

/-- The last time of expiry, whose milliseconds are a signed number of 64 bits. -/
def lastTime : Time := 9223372036854775807 * 1000

/-- A text is stored for its time to live, and takes the place of no other text. -/
structure Lasting (redis : Redis ρ) : Prop where
  setex (store : ρ) (key : String) (seconds : ℤ) (value : List Char) (now : Time) : 0 ≤ now →
    0 < seconds → now + seconds * 1000000 ≤ lastTime →
    ∃ store', redis.setex store key seconds value now = some store'
  get_self {store store' : ρ} {key : String} {seconds : ℤ} {value : List Char} {now now' : Time} :
    redis.setex store key seconds value now = some store' → now ≤ now' →
    now' < now + seconds * 1000000 → redis.get store' key now' = some value
  get_other {store store' : ρ} {key key' : String} {seconds : ℤ} {value : List Char}
    {now now' : Time} : redis.setex store key seconds value now = some store' → key' ≠ key →
    now ≤ now' → redis.get store' key' now' = redis.get store key' now'

end Redis

variable {ρ : Type}

/-- `SearchCache` as it stands, with the text of `{"search_id": search_id}` as the only value. -/
structure RedisCache (ρ : Type) where
  redis : Redis ρ
  ttlSeconds : ℤ

namespace RedisCache

/-- A read that fails, or of a key that Redis has evicted, is not `available`. -/
def get (cache : RedisCache ρ) (store : ρ) (key : String) (available : Bool) (now : Time) :
    Option Obj :=
  if available then
    match cache.redis.get store ("flight-search:" ++ key) now with
    | some value =>
      if value = [] then none
      else
        match loadsStr (text value) with
        | .ok payload => some payload
        | .error _ => none
    | none => none
  else none

/-- A failing write may have been `written` all the same. An error reply is only logged. -/
def set (cache : RedisCache ρ) (store : ρ) (key searchId : String) (written : Bool) (now : Time) :
    ρ :=
  if written then
    (cache.redis.setex store ("flight-search:" ++ key) cache.ttlSeconds (searchIdText searchId)
      now).getD store
  else store

end RedisCache

/-- The platform with the texts in the cache and the bodies in the queue. -/
structure Wired (ρ : Type) where
  world : World
  redis : ρ
  /-- When Redis took its last command. -/
  clock : Time
  queue : List Bytes
  tasks : List String

def Wired.withWorld (s : Wired ρ) (w : World) : Wired ρ := { s with world := w }

def Wired.start (redis : Redis ρ) (clock : Time) (w : World) : Wired ρ :=
  ⟨w, redis.empty, clock, [], []⟩

/-- The choices of `start` with the clock of Redis, which does not run backwards. -/
inductive WiredChoice
  | readCache (available : Bool) (now : Time)
  | readRow (now : Time)
  | create (searchId : String) (now : Time)
  | writeCache (written : Bool) (now : Time)
  | dispatch (failure : Option Raised)

def StartSearch.advanceWired (settings : SearchSettings) (cache : RedisCache ρ)
    (sha256 : String → String) (s : Wired ρ) (r : StartSearch) (x : WiredChoice) :
    Option (Wired ρ × StartSearch) :=
  match r.phase, x with
  | .requested, .readCache available now =>
    if settings.cache then
      if s.clock ≤ now then
        match (cache.get s.redis (r.cacheKey sha256) available now).bind searchIdOf with
        | some searchId => some ({ s with clock := now }, { r with phase := .cached searchId })
        | none => some ({ s with clock := now }, { r with phase := .missed })
      else none
    else some (s, { r with phase := .missed })
  | .cached searchId, .readRow now =>
    match s.world.db.search? searchId with
    | some existing =>
      if now < existing.expiresAt then some (s, r.finish (.ok existing))
      else some (s, { r with phase := .missed })
    | none => some (s, { r with phase := .missed })
  | .missed, .create searchId now =>
    if hp : r.payload.Stores then
      let search := newSearch settings searchId r.agentId r.payload hp now
      match startCreate s.world.db search with
      | .error e => some (s, r.finish (.error (.refused e)))
      | .ok db => some (s.withWorld (s.world.commit db []), { r with phase := .created search })
    else some (s, r.finish (.error (.refused .dbapiError)))
  | .created search, .writeCache written now =>
    if settings.cache then
      if s.clock ≤ now then
        let store := cache.set s.redis (r.cacheKey sha256) search.id written now
        some ({ s with redis := store, clock := now }, { r with phase := .remembered search })
      else none
    else some (s, { r with phase := .remembered search })
  | .remembered search, .dispatch failure =>
    match settings.searchDispatchMode with
    | .inline => some ({ s with tasks := s.tasks ++ [search.id] }, r.finish (.ok search))
    | .rabbitmq =>
      if ¬ settings.broker then some (s, r.finish (.error (.undispatched noBroker)))
      else
        match failure with
        | some e => some (s, r.finish (.error (.undispatched e)))
        | none =>
          some ({ s with queue := s.queue ++ [searchBody search.id] }, r.finish (.ok search))
  | _, _ => none

abbrev WiredJobChoice := WiredChoice ⊕ (ProcessChoice ⊕ Choice)

/-- The cache that the service and its worker build from the settings. -/
def Deployment.searchCache (d : Deployment) (redis : Redis ρ) : RedisCache ρ :=
  ⟨redis, d.settings.searchTtlSeconds⟩

/-- Calls of `start` over texts. -/
def startingWired (redis : Redis ρ) (d : Deployment) :
    Program (Wired ρ) StartSearch WiredChoice where
  fresh r := r.phase matches .requested
  advance := StartSearch.advanceWired d.settings (d.searchCache redis) d.sha256

/-- The whole service over texts. -/
def wired (redis : Redis ρ) (d : Deployment) : Program (Wired ρ) Job WiredJobChoice :=
  (startingWired redis d).sum
    (((processing d.provider).sum (booking d.sha256)).within Wired.world Wired.withWorld)

/-! ## Reading the texts back -/

/-- The platform over dictionaries and ids that texts stand for. -/
structure Wired.StandsFor (redis : Redis ρ) (s : Wired ρ) (t : Platform) : Prop where
  world : t.world = s.world
  /-- What Redis can still return is the text of the dictionary under the key. -/
  entries : ∀ key now value, s.clock ≤ now →
    redis.get s.redis ("flight-search:" ++ key) now = some value →
    ∃ searchId, value = searchIdText searchId ∧
      t.cache.get key = some (.obj [("search_id", .str searchId)])
  bodies : s.queue = t.queue.map searchBody
  tasks : t.tasks = s.tasks

/-- The step over dictionaries finds no more in the cache, and writes no more to it. -/
inductive WiredChoice.StandsFor : WiredChoice → StartChoice → Prop
  | readCache {available found : Bool} (now : Time) : (found → available) →
      StandsFor (.readCache available now) (.readCache found)
  | readRow (now : Time) : StandsFor (.readRow now) (.readRow now)
  | create (searchId : String) (now : Time) :
      StandsFor (.create searchId now) (.create searchId now)
  | writeCache {written stored : Bool} (now : Time) : (stored → written) →
      StandsFor (.writeCache written now) (.writeCache stored)
  | dispatch (failure : Option Raised) : StandsFor (.dispatch failure) (.dispatch failure)

abbrev WiredJobChoice.StandsFor : WiredJobChoice → JobChoice → Prop :=
  Sum.LiftRel WiredChoice.StandsFor Eq

section Cache

variable {cache : RedisCache ρ} {redis : Redis ρ} {store : ρ} {key searchId : String} {now : Time}
  {s : Wired ρ} {t : Platform}

theorem RedisCache.get_eq_none
    (h : cache.redis.get store ("flight-search:" ++ key) now = none) (available : Bool) :
    cache.get store key available now = none := by
  rw [get, h, ite_self]

theorem RedisCache.get_searchIdText
    (h : cache.redis.get store ("flight-search:" ++ key) now = some (searchIdText searchId)) :
    (cache.get store key true now).bind searchIdOf = some searchId := by
  have hne : searchIdText searchId ≠ [] := List.cons_ne_nil _ _
  rw [get, if_pos rfl, h]
  simp only [if_neg hne, loadsStr_searchIdText]
  exact searchIdOf_dict searchId

theorem cachedSearchId_dict :
    cachedSearchId (.obj [("search_id", .str searchId)]) = some searchId := rfl

namespace Wired.StandsFor

variable (hr : s.StandsFor redis t)
include hr

theorem cached (cache : RedisCache ρ) {available : Bool} (hc : cache.redis = redis)
    (hnow : s.clock ≤ now)
    (h : (cache.get s.redis key available now).bind searchIdOf = some searchId) :
    available = true ∧ (t.cache.get key).bind cachedSearchId = some searchId := by
  subst hc
  cases hfound : cache.redis.get s.redis ("flight-search:" ++ key) now with
  | none =>
    rw [RedisCache.get_eq_none hfound] at h
    cases h
  | some value =>
    obtain ⟨id', rfl, hdict⟩ := hr.entries key now value hnow hfound
    cases available with
    | false => cases h
    | true =>
      rw [RedisCache.get_searchIdText hfound] at h
      obtain rfl := Option.some.inj h
      exact ⟨rfl, by rw [hdict, Option.bind_some, cachedSearchId_dict]⟩

theorem withWorld (w : World) : (s.withWorld w).StandsFor redis (t.withWorld w) :=
  ⟨rfl, hr.entries, hr.bodies, hr.tasks⟩

theorem later (h : s.clock ≤ now) : ({ s with clock := now } : Wired ρ).StandsFor redis t := by
  refine ⟨hr.world, ?_, hr.bodies, hr.tasks⟩
  intro key later value hlater hfound
  exact hr.entries key later value (h.trans hlater) hfound

theorem stored (hf : redis.Faithful) (h : s.clock ≤ now) {seconds : ℤ} {store : ρ}
    (hset : redis.setex s.redis ("flight-search:" ++ key) seconds (searchIdText searchId) now =
      some store) :
    ({ s with redis := store, clock := now } : Wired ρ).StandsFor redis
      { t with cache := t.cache.set key (.obj [("search_id", .str searchId)]) } := by
  refine ⟨hr.world, ?_, hr.bodies, hr.tasks⟩
  intro key' later value hlater hfound
  change ∃ id', _ ∧ (t.cache.set key _).get key' = _
  rw [SearchCache.get_set]
  by_cases hkey : key' = key
  · subst hkey
    exact ⟨searchId, hf.get_self hset hlater hfound, if_pos rfl⟩
  · have hkeys : "flight-search:" ++ key' ≠ "flight-search:" ++ key :=
      mt (String.append_right_inj _).mp hkey
    rw [if_neg hkey]
    exact hr.entries key' later value (h.trans hlater)
      (hf.get_other hset hkeys hlater hfound)

theorem written (cache : RedisCache ρ) (hf : redis.Faithful) (hc : cache.redis = redis)
    (h : s.clock ≤ now) (written : Bool) : ∃ stored : Bool, (stored → written) ∧
      Wired.StandsFor redis
        { s with redis := cache.set s.redis key searchId written now, clock := now }
        (if stored then
          { t with cache := t.cache.set key (.obj [("search_id", .str searchId)]) } else t) := by
  subst hc
  cases written with
  | false => exact ⟨false, id, hr.later h⟩
  | true =>
    rw [RedisCache.set, if_pos rfl]
    cases hset : cache.redis.setex s.redis ("flight-search:" ++ key) cache.ttlSeconds
        (searchIdText searchId) now with
    | none => exact ⟨false, by simp, hr.later h⟩
    | some store => exact ⟨true, id, hr.stored hf h hset⟩

theorem published : ({ s with queue := s.queue ++ [searchBody searchId] } : Wired ρ).StandsFor redis
    { t with queue := t.queue ++ [searchId] } :=
  ⟨hr.world, hr.entries, by simp [hr.bodies], hr.tasks⟩

theorem handed : ({ s with tasks := s.tasks ++ [searchId] } : Wired ρ).StandsFor redis
    { t with tasks := t.tasks ++ [searchId] } :=
  ⟨hr.world, hr.entries, hr.bodies, by simp [hr.tasks]⟩

end Wired.StandsFor

end Cache

section Steps

variable {d : Deployment} {redis : Redis ρ} {s s' : Wired ρ} {t t' : Platform}
  {r r' : StartSearch} {x : WiredChoice} {y : StartChoice}

/-- A step that leaves the cache and Redis as they are. -/
def WiredChoice.offCache : WiredChoice → Bool
  | .readCache .. | .writeCache .. => false
  | _ => true

/-- What a step off the cache makes of both services. -/
structure SteppedAlike (redis : Redis ρ) (s : Wired ρ) (t : Platform) (p : Wired ρ × StartSearch)
    (q : Platform × StartSearch) : Prop where
  standsFor : p.1.StandsFor redis q.1
  redis_eq : p.1.redis = s.redis
  clock_eq : p.1.clock = s.clock
  cache_eq : q.1.cache = t.cache
  process_eq : q.2 = p.2

theorem StartSearch.advance_alike (hr : s.StandsFor redis t) (hxy : x.StandsFor y)
    (hx : x.offCache = true) : Option.Rel (SteppedAlike redis s t)
      (r.advanceWired d.settings (d.searchCache redis) d.sha256 s x)
      (r.advance d.settings d.sha256 t y) := by
  obtain ⟨agentId, payload, calledAt, phase⟩ := r
  cases hxy with
  | readCache => cases hx
  | writeCache => cases hx
  | readRow now =>
    cases phase with
    | cached searchId =>
      simp only [advance, advanceWired, hr.world]
      cases s.world.db.search? searchId with
      | none => exact .some ⟨hr, rfl, rfl, rfl, rfl⟩
      | some existing =>
        dsimp only
        split <;> exact .some ⟨hr, rfl, rfl, rfl, rfl⟩
    | _ => exact .none
  | create searchId now =>
    cases phase with
    | missed =>
      simp only [advance, advanceWired, hr.world]
      split
      · cases startCreate s.world.db _ with
        | error e => exact .some ⟨hr, rfl, rfl, rfl, rfl⟩
        | ok db => exact .some ⟨hr.withWorld _, rfl, rfl, rfl, rfl⟩
      · exact .some ⟨hr, rfl, rfl, rfl, rfl⟩
    | _ => exact .none
  | dispatch failure =>
    cases phase with
    | remembered search =>
      simp only [advance, advanceWired]
      cases d.settings.searchDispatchMode with
      | inline => exact .some ⟨hr.handed, rfl, rfl, rfl, rfl⟩
      | rabbitmq =>
        dsimp only
        split
        · exact .some ⟨hr, rfl, rfl, rfl, rfl⟩
        · cases failure with
          | some e => exact .some ⟨hr, rfl, rfl, rfl, rfl⟩
          | none => exact .some ⟨hr.published, rfl, rfl, rfl, rfl⟩
    | _ => exact .none

theorem StartSearch.exists_of_alike (hr : s.StandsFor redis t) (hxy : x.StandsFor y)
    (hx : x.offCache = true)
    (h : r.advanceWired d.settings (d.searchCache redis) d.sha256 s x = some (s', r')) :
    ∃ y t', x.StandsFor y ∧ r.advance d.settings d.sha256 t y = some (t', r') ∧
      s'.StandsFor redis t' := by
  have hrel := StartSearch.advance_alike (d := d) (r := r) hr hxy hx
  rw [h] at hrel
  generalize hy : r.advance d.settings d.sha256 t y = o at hrel
  cases hrel with
  | @some _ q hq =>
    exact ⟨y, q.1, hxy, hy.trans (congrArg some (Prod.ext rfl hq.process_eq)), hq.standsFor⟩

/-- Each step over texts is one over the dictionaries they stand for. -/
theorem StartSearch.exists_advance (hf : redis.Faithful) (hr : s.StandsFor redis t)
    (h : r.advanceWired d.settings (d.searchCache redis) d.sha256 s x = some (s', r')) :
    ∃ y t', x.StandsFor y ∧ r.advance d.settings d.sha256 t y = some (t', r') ∧
      s'.StandsFor redis t' := by
  cases x with
  | readRow now => exact exists_of_alike hr (.readRow now) rfl h
  | create searchId now => exact exists_of_alike hr (.create searchId now) rfl h
  | dispatch failure => exact exists_of_alike hr (.dispatch failure) rfl h
  | readCache available now =>
    obtain ⟨agentId, payload, calledAt, phase⟩ := r
    cases phase with
    | requested =>
      by_cases hcache : d.settings.cache = true
      · simp only [advanceWired, if_pos hcache, Option.ite_none_right_eq_some] at h
        obtain ⟨hnow, h⟩ := h
        split at h
        · rename_i searchId hfound
          cases h
          obtain ⟨rfl, hdict⟩ := hr.cached (d.searchCache redis) rfl hnow hfound
          refine ⟨.readCache true, t, .readCache now id, ?_, hr.later hnow⟩
          simp only [advance, hcache, and_self, if_true, hdict]
        · cases h
          refine ⟨.readCache false, t, .readCache now (by simp), ?_, hr.later hnow⟩
          simp [advance]
      · simp only [advanceWired, if_neg hcache] at h
        cases h
        refine ⟨.readCache available, t, .readCache now id, ?_, hr⟩
        simp [advance, hcache]
    | _ => cases h
  | writeCache written now =>
    obtain ⟨agentId, payload, calledAt, phase⟩ := r
    cases phase with
    | created search =>
      by_cases hcache : d.settings.cache = true
      · simp only [advanceWired, if_pos hcache, Option.ite_none_right_eq_some] at h
        obtain ⟨hnow, h⟩ := h
        cases h
        obtain ⟨stored, hstored, hs⟩ :=
          hr.written (d.searchCache redis) hf rfl hnow written
        refine ⟨.writeCache stored, _, .writeCache now hstored, ?_, hs⟩
        cases stored <;> simp [advance, hcache, cacheKey]
      · simp only [advanceWired, if_neg hcache] at h
        cases h
        refine ⟨.writeCache written, t, .writeCache now id, ?_, hr⟩
        simp [advance, hcache]
    | _ => cases h

/-! ### Back to the texts -/

/-- The texts stand for the dictionaries, and Redis still returns each of them. -/
structure Wired.InStep (redis : Redis ρ) (clock : Time) (s : Wired ρ) (t : Platform) : Prop where
  standsFor : s.StandsFor redis t
  clock_eq : s.clock = clock
  live : ∀ key cached, t.cache.get key = some cached → ∃ searchId,
    cached = .obj [("search_id", .str searchId)] ∧
      redis.get s.redis ("flight-search:" ++ key) clock = some (searchIdText searchId)

variable {clock : Time}

theorem SteppedAlike.inStep {p : Wired ρ × StartSearch} {q : Platform × StartSearch}
    (h : SteppedAlike redis s t p q) (hs : s.InStep redis clock t) :
    p.1.InStep redis clock q.1 := by
  refine ⟨h.standsFor, h.clock_eq.trans hs.clock_eq, ?_⟩
  rw [h.cache_eq, h.redis_eq]
  exact hs.live

theorem Wired.InStep.cached (hs : s.InStep redis clock t) (cache : RedisCache ρ)
    (hc : cache.redis = redis) (key : String) (available : Bool) :
    (cache.get s.redis key available clock).bind searchIdOf =
      if available then (t.cache.get key).bind cachedSearchId else none := by
  subst hc
  cases available with
  | false => rfl
  | true =>
    rw [if_pos rfl]
    cases hget : t.cache.get key with
    | none =>
      cases hfound : cache.redis.get s.redis ("flight-search:" ++ key) clock with
      | none => rw [RedisCache.get_eq_none hfound, Option.bind_none, Option.bind_none]
      | some value =>
        obtain ⟨searchId, _, hdict⟩ := hs.standsFor.entries key clock value hs.clock_eq.le hfound
        rw [hget] at hdict
        cases hdict
    | some cached =>
      obtain ⟨searchId, rfl, hfound⟩ := hs.live key cached hget
      rw [RedisCache.get_searchIdText hfound, Option.bind_some, cachedSearchId_dict]

theorem Wired.InStep.stored (hf : redis.Faithful) (hl : redis.Lasting) {seconds : ℤ}
    (hclock : 0 ≤ clock) (hseconds : 0 < seconds)
    (hlast : clock + seconds * 1000000 ≤ Redis.lastTime) (hs : s.InStep redis clock t)
    (key searchId : String) : ∃ store,
      redis.setex s.redis ("flight-search:" ++ key) seconds (searchIdText searchId) clock =
        some store ∧
      ({ s with redis := store, clock := clock } : Wired ρ).InStep redis clock
        { t with cache := t.cache.set key (.obj [("search_id", .str searchId)]) } := by
  obtain ⟨store, hset⟩ := hl.setex s.redis ("flight-search:" ++ key) seconds
    (searchIdText searchId) clock hclock hseconds hlast
  refine ⟨store, hset, hs.standsFor.stored hf hs.clock_eq.le hset, rfl, ?_⟩
  intro key' cached hget
  change (t.cache.set key _).get key' = _ at hget
  rw [SearchCache.get_set] at hget
  by_cases hkey : key' = key
  · subst hkey
    rw [if_pos rfl] at hget
    have hlive : clock < clock + seconds * 1000000 :=
      lt_add_of_pos_right clock (mul_pos hseconds (by decide))
    exact ⟨searchId, (Option.some.inj hget).symm, hl.get_self hset le_rfl hlive⟩
  · rw [if_neg hkey] at hget
    obtain ⟨id', rfl, hfound⟩ := hs.live key' cached hget
    have hkeys : "flight-search:" ++ key' ≠ "flight-search:" ++ key :=
      mt (String.append_right_inj _).mp hkey
    exact ⟨id', rfl, (hl.get_other hset hkeys le_rfl).trans hfound⟩

theorem StartSearch.existsWired_of_alike (hs : s.InStep redis clock t) (hxy : x.StandsFor y)
    (hx : x.offCache = true) (h : r.advance d.settings d.sha256 t y = some (t', r')) :
    ∃ x s', x.StandsFor y ∧
      r.advanceWired d.settings (d.searchCache redis) d.sha256 s x = some (s', r') ∧
      s'.InStep redis clock t' := by
  have hrel := StartSearch.advance_alike (d := d) (r := r) hs.standsFor hxy hx
  rw [h] at hrel
  generalize hy : r.advanceWired d.settings (d.searchCache redis) d.sha256 s x = o at hrel
  cases hrel with
  | @some p _ hq =>
    exact ⟨x, p.1, hxy, hy.trans (congrArg some (Prod.ext rfl hq.process_eq.symm)), hq.inStep hs⟩

/-- Each step over dictionaries is one over texts that Redis takes at once. -/
theorem StartSearch.exists_advanceWired (hf : redis.Faithful) (hl : redis.Lasting)
    (hclock : 0 ≤ clock) (httl : 0 < d.settings.searchTtlSeconds)
    (hlast : clock + d.settings.searchTtlSeconds * 1000000 ≤ Redis.lastTime)
    (hs : s.InStep redis clock t) (h : r.advance d.settings d.sha256 t y = some (t', r')) :
    ∃ x s', x.StandsFor y ∧
      r.advanceWired d.settings (d.searchCache redis) d.sha256 s x = some (s', r') ∧
      s'.InStep redis clock t' := by
  obtain rfl := hs.clock_eq
  cases y with
  | readRow now => exact existsWired_of_alike hs (.readRow now) rfl h
  | create searchId now => exact existsWired_of_alike hs (.create searchId now) rfl h
  | dispatch failure => exact existsWired_of_alike hs (.dispatch failure) rfl h
  | readCache available =>
    obtain ⟨agentId, payload, calledAt, phase⟩ := r
    cases phase with
    | requested =>
      by_cases hcache : d.settings.cache = true
      · have hread := hs.cached (d.searchCache redis) rfl
          (cacheKey d.sha256 ⟨agentId, payload, calledAt, .requested⟩) available
        refine ⟨.readCache available s.clock, s, .readCache s.clock id, ?_⟩
        simp only [advanceWired, if_pos hcache, le_refl, if_true, hread]
        cases available with
        | false =>
          obtain ⟨rfl, rfl⟩ : t = t' ∧ _ = r' := by simpa [advance] using h
          exact ⟨rfl, hs⟩
        | true =>
          simp only [advance, hcache, and_self, if_true] at h ⊢
          generalize (t.cache.get _).bind cachedSearchId = found at h ⊢
          cases found <;> cases h <;> exact ⟨rfl, hs⟩
      · obtain ⟨rfl, rfl⟩ : t = t' ∧ _ = r' := by simpa [advance, hcache] using h
        refine ⟨.readCache available s.clock, s, .readCache s.clock id, ?_, hs⟩
        simp only [advanceWired, if_neg hcache]
    | _ => cases h
  | writeCache written =>
    obtain ⟨agentId, payload, calledAt, phase⟩ := r
    cases phase with
    | created search =>
      by_cases hcache : d.settings.cache = true
      · cases written with
        | false =>
          obtain ⟨rfl, rfl⟩ : t = t' ∧ _ = r' := by simpa [advance] using h
          refine ⟨.writeCache false s.clock, s, .writeCache s.clock id, ?_, hs⟩
          simp only [advanceWired, if_pos hcache, le_refl, if_true]
          rfl
        | true =>
          simp only [advance, hcache, and_self, if_true] at h
          cases h
          obtain ⟨store, hset, hstep⟩ := hs.stored hf hl hclock httl hlast
            (cacheKey d.sha256 ⟨agentId, payload, calledAt, .created search⟩) search.id
          refine ⟨.writeCache true s.clock, _, .writeCache s.clock id, ?_, hstep⟩
          have hcommand : (d.searchCache redis).set s.redis
              (cacheKey d.sha256 ⟨agentId, payload, calledAt, .created search⟩) search.id true
                s.clock = store := by
            rw [RedisCache.set, if_pos rfl]
            exact congrArg (fun o => o.getD s.redis) hset
          simp only [advanceWired, if_pos hcache, le_refl, if_true, hcommand]
      · obtain ⟨rfl, rfl⟩ : t = t' ∧ _ = r' := by simpa [advance, hcache] using h
        refine ⟨.writeCache written s.clock, s, .writeCache s.clock id, ?_, hs⟩
        simp only [advanceWired, if_neg hcache]
    | _ => cases h

end Steps

section Machine

variable {d : Deployment} {redis : Redis ρ}

theorem Wired.standsFor_start (hf : redis.Faithful) (clock : Time) (w : World) :
    (Wired.start redis clock w).StandsFor redis (Platform.start w) := by
  refine ⟨rfl, ?_, rfl, rfl⟩
  intro key now value _ hfound
  rw [Wired.start, hf.get_empty] at hfound
  cases hfound

theorem wired_matches (hf : redis.Faithful) : (wired redis d).Matches (serving d)
    (Wired.StandsFor redis) WiredJobChoice.StandsFor := by
  have hstart : (startingWired redis d).Matches (starting d.settings d.sha256)
      (Wired.StandsFor redis) WiredChoice.StandsFor := by
    refine ⟨fun _ hr => hr, ?_⟩
    intro s t r x s' r' hr h
    exact StartSearch.exists_advance hf hr h
  refine hstart.sum (.within ?_ ?_) (fun _ _ => .inl) ?_
  · intro s t hr
    exact hr.world
  · intro s t w hr
    exact hr.withWorld w
  · rintro x y rfl
    exact .inr rfl

theorem serving_matches (hf : redis.Faithful) (hl : redis.Lasting) {clock : Time}
    (hclock : 0 ≤ clock) (httl : 0 < d.settings.searchTtlSeconds)
    (hlast : clock + d.settings.searchTtlSeconds * 1000000 ≤ Redis.lastTime) :
    (serving d).Matches (wired redis d) (fun t s => s.InStep redis clock t)
      fun y x => WiredJobChoice.StandsFor x y := by
  have hstart : (starting d.settings d.sha256).Matches (startingWired redis d)
      (fun t s => s.InStep redis clock t) fun y x => x.StandsFor y := by
    refine ⟨fun _ hr => hr, ?_⟩
    intro t s r y t' r' hs h
    exact StartSearch.exists_advanceWired hf hl hclock httl hlast hs h
  refine hstart.sum (.within ?_ ?_) (fun _ _ => .inl) ?_
  · intro t s hs
    exact hs.standsFor.world.symm
  · intro t s w hs
    exact ⟨hs.standsFor.withWorld w, hs.clock_eq, hs.live⟩
  · rintro y x rfl
    exact .inr rfl

/-- Every run over texts is one over dictionaries, under a guard that admits the same actions of
both. The converse holds if Redis keeps a text for its time to live. -/
theorem wired_is_serving (hf : redis.Faithful) {G : Serving → Action Job JobChoice → Prop}
    {H : Config (Wired ρ) Job → Action Job WiredJobChoice → Prop}
    (hG : ∀ c e a b, Config.Rel (Wired.StandsFor redis) c e →
      Action.Rel WiredJobChoice.StandsFor a b → (H c a ↔ G e b)) (clock : Time) (w : World) :
    (∀ as c, (wired redis d).machine.RunWhere H (Program.start (Wired.start redis clock w)) as c →
      ∃ bs e, (serving d).machine.RunWhere G (Program.start (Platform.start w)) bs e ∧
        Config.Rel (Wired.StandsFor redis) c e) ∧
    (redis.Lasting → 0 ≤ clock → 0 < d.settings.searchTtlSeconds →
      clock + d.settings.searchTtlSeconds * 1000000 ≤ Redis.lastTime → ∀ bs e,
      (serving d).machine.RunWhere G (Program.start (Platform.start w)) bs e →
      ∃ as c, (wired redis d).machine.RunWhere H (Program.start (Wired.start redis clock w)) as c ∧
        Config.Rel (Wired.StandsFor redis) c e) := by
  have hstart := Wired.standsFor_start hf clock w
  constructor
  · intro as c h
    have hsim := (wired_matches (d := d) hf).simulates (G := H) (H := G) fun c e a b hc ha =>
      (hG c e a b hc ha).mp
    exact hsim.run h ⟨hstart, rfl⟩
  · intro hl hclock httl hlast bs e h
    have hsim := (serving_matches hf hl hclock httl hlast).simulates (G := G) (H := H)
      fun e c b a hc ha => (hG c e a b ⟨hc.store.standsFor, hc.procs.symm⟩ ha.swap).mpr
    have hempty : Config.Rel (fun t s => s.InStep redis clock t)
        (Program.start (Platform.start w) : Serving)
        (Program.start (Wired.start redis clock w)) := by
      refine ⟨⟨hstart, rfl, ?_⟩, rfl⟩
      intro key cached hget
      cases hget
    obtain ⟨as, c, hrun, hc⟩ := hsim.run h hempty
    exact ⟨as, c, hrun, hc.store.standsFor, hc.procs.symm⟩

end Machine

namespace Example

/-- A Redis that returns a string up to the millisecond in which it expires. -/
def redis : Redis (List (String × List Char × ℤ)) where
  empty := []
  get store key now := (store.find? fun e => e.1 == key).bind fun e =>
    if now / 1000 ≤ e.2.2 then some e.2.1 else none
  setex store key seconds value now :=
    if 0 < seconds ∧ seconds * 1000 ≤ 9223372036854775807 ∧
        now / 1000 + seconds * 1000 ≤ 9223372036854775807 then
      some ((key, value, now / 1000 + seconds * 1000) :: store)
    else none

theorem redis_get_self {store store' : List (String × List Char × ℤ)} {key : String} {seconds : ℤ}
    {value : List Char} {now now' : Time}
    (h : redis.setex store key seconds value now = some store') :
    redis.get store' key now' =
      if now' / 1000 ≤ now / 1000 + seconds * 1000 then some value else none := by
  obtain ⟨_, h⟩ := Option.ite_none_right_eq_some.mp h
  obtain rfl := Option.some.inj h
  simp [redis]

theorem redis_get_other {store store' : List (String × List Char × ℤ)} {key key' : String}
    {seconds : ℤ} {value : List Char} {now now' : Time}
    (h : redis.setex store key seconds value now = some store') (hkey : key' ≠ key) :
    redis.get store' key' now' = redis.get store key' now' := by
  obtain ⟨_, h⟩ := Option.ite_none_right_eq_some.mp h
  obtain rfl := Option.some.inj h
  simp [redis, beq_eq_false_iff_ne.mpr hkey.symm]

theorem redis_faithful : redis.Faithful where
  get_empty _ _ := rfl
  get_self h _ hfound := by
    rw [redis_get_self h, Option.ite_none_right_eq_some] at hfound
    exact (Option.some.inj hfound.2).symm
  get_other h hkey _ hfound := by rwa [redis_get_other h hkey] at hfound

theorem redis_lasting : redis.Lasting where
  setex store key seconds value now hnow hseconds hlast := by
    have hmicros : seconds * 1000000 = seconds * 1000 * 1000 := by ring
    have hend : now / 1000 + seconds * 1000 ≤ 9223372036854775807 := by
      rw [← Int.add_mul_ediv_right now _ (by decide), ← hmicros]
      exact Int.ediv_le_of_le_mul (by decide) hlast
    have hnow' : 0 ≤ now / 1000 := Int.ediv_nonneg hnow (by decide)
    exact ⟨_, if_pos ⟨hseconds, by linarith, hend⟩⟩
  get_self {store store' key seconds value now now'} h hnow hlive := by
    have hmicros : seconds * 1000000 = seconds * 1000 * 1000 := by ring
    have hexpiry : now' / 1000 ≤ now / 1000 + seconds * 1000 := by
      rw [← Int.add_mul_ediv_right now _ (by decide), ← hmicros]
      exact Int.ediv_le_ediv (by decide) hlive.le
    rw [redis_get_self h, if_pos hexpiry]
  get_other h hkey _ := redis_get_other h hkey

end Example

/-- A second call reads the text that the first has written, and both services return the search. -/
theorem wired_is_serving_searchedTwice : ∃ (c : Config (Wired _) Job) (e : Serving),
    Example.returned e = ["search"] ∧ c.store.StandsFor Example.redis e.store ∧
      (∃ bs, (serving Example.deployment).machine.Run (Program.start (Platform.start Example.bare))
        bs e) ∧
      ∃ as c', (wired Example.redis Example.deployment).machine.Run
        (Program.start (Wired.start Example.redis 50 Example.bare)) as c' ∧ e.procs = c'.procs := by
  have hrun : ((wired Example.redis Example.deployment).machine.exec
      (Program.start (Wired.start Example.redis 50 Example.bare))
      [.spawn (Example.startCall 100), .advance 0 (.inl (.readCache true 100)),
        .advance 0 (.inl (.create "search" 100)), .advance 0 (.inl (.writeCache true 100)),
        .spawn (Example.startCall 200), .advance 1 (.inl (.readCache true 200)),
        .advance 1 (.inl (.readRow 201))]).map
        (fun c => Example.returned ⟨Platform.start Example.bare, c.procs⟩) = some ["search"] := by
    decide +kernel
  obtain ⟨c, hc, hret⟩ := Option.map_eq_some_iff.mp hrun
  obtain ⟨hread, hwrite⟩ := wired_is_serving (d := Example.deployment) Example.redis_faithful
    (G := fun _ _ => True) (H := fun _ _ => True) (fun _ _ _ _ _ _ => Iff.rfl) 50 Example.bare
  obtain ⟨bs, e, hserving, he⟩ := hread _ c (Machine.exec_eq_some_iff.mp hc)
  obtain ⟨as, c', hwired, he'⟩ := hwrite Example.redis_lasting (by decide) (by decide) (by decide)
    bs e hserving
  refine ⟨c, e, ?_, he.store, ⟨bs, hserving⟩, as, c', hwired, he'.procs⟩
  rw [Example.returned, he.procs]
  exact hret

end Ioka
