import Ioka.Json.RoundTrip

/-! # The text of a search id

`{"search_id": search_id}` as `json.dumps` writes it, with a space behind the colon. The
broker publishes the text as UTF-8, the cache stores it as it is, and both read it back.
-/

namespace Ioka

open Python

/-- `json.dumps({"search_id": search_id})` -/
def searchIdText (searchId : String) : List Char :=
  '{' :: (Json.renderStr "search_id" ++ ':' :: ' ' :: Json.renderStr searchId ++ ['}'])

/-- The `search_id` of a `dict`, if it is a string of scalar values. -/
def searchIdOf : Obj → Option String
  | .dict members =>
    match get members "search_id" with
    | some (.str s) => (scalars? s).map String.ofList
    | _ => none
  | _ => none

/-- `json.loads(body)["search_id"]` -/
def bodySearchId (body : Bytes) : Option String :=
  match loads body with
  | .ok payload => searchIdOf payload
  | .error _ => none

/-- `json.dumps({"search_id": search_id}).encode()` -/
def searchBody (searchId : String) : Bytes := utf8 (searchIdText searchId)

section RoundTrip

variable (searchId : String)

theorem printable_searchIdText : Printable (searchIdText searchId) := by
  have hkey : Printable (Json.renderStr "search_id") := Json.printable_renderStr _
  have hvalue : Printable (':' :: ' ' :: Json.renderStr searchId) :=
    Json.printable_cons (by decide) (Json.printable_cons (by decide) (Json.printable_renderStr _))
  exact Json.printable_cons (by decide)
    (Json.printable_append (Json.printable_append hkey hvalue) (by decide))

theorem loadsStr_searchIdText : loadsStr (text (searchIdText searchId)) =
    .ok (.dict [(str "search_id", .str (str searchId))]) := by
  have hkey (fuel : ℕ) (h : 9 < fuel) (r : Str) : scanString fuel
      (text ("search_id".toList.flatMap Json.escape) ++ .scalar '"' :: r) =
        .ok (str "search_id", r) := Json.scanString_key h r
  have htext : text (searchIdText searchId) = .scalar '\x7b' :: .scalar '"' ::
      (text ("search_id".toList.flatMap Json.escape) ++ .scalar '"' :: .scalar ':' ::
        .scalar ' ' :: (text (Json.render (.str searchId)) ++ [.scalar '\x7d'])) := by
    simp [searchIdText, Json.renderStr, Json.render, text]
  obtain ⟨fuel, hfuel⟩ : ∃ fuel, 2 * (text (searchIdText searchId)).length + 1 = fuel + 2 :=
    ⟨2 * (text (searchIdText searchId)).length - 1, by rw [htext]; simp; omega⟩
  have hlen : 9 < fuel ∧ 2 * (Json.render (.str searchId)).length < fuel := by
    have hescape : ("search_id".toList.flatMap Json.escape).length = 9 := by decide
    have hlength := congrArg List.length htext
    simp only [List.length_cons, List.length_append, hescape, text, List.length_map,
      List.length_nil] at hlength hfuel
    omega
  have hvalue : scanOnce fuel (skipSpace (.scalar ' ' ::
      (text (Json.render (.str searchId)) ++ [.scalar '\x7d']))) =
        .ok (.str (str searchId), [.scalar '\x7d']) := by
    have hskip := Json.skipSpace_render (.str searchId) [.scalar '\x7d']
    change scanOnce fuel (skipSpace (text (Json.render (.str searchId)) ++ _)) = _
    rw [hskip]
    exact Json.readsBack (.str searchId) rfl rfl fuel _ hlen.2 (Json.ends_cons (by simp))
  have hmembers := Json.scanMembers_last [] (hkey fuel hlen.1 _) hvalue
  rw [loadsStr, hfuel, htext]
  change (scanOnce (fuel + 2) (.scalar '\x7b' :: .scalar '"' :: _) >>= _) = _
  rw [scanOnce, if_neg (by decide), if_pos rfl]
  change (scanMembers (fuel + 1) [] _ >>= _) = _
  rw [hmembers]
  rfl

theorem searchIdOf_dict :
    searchIdOf (.dict [(str "search_id", .str (str searchId))]) = some searchId := by
  have hget : get [(str "search_id", .str (str searchId))] "search_id" =
      some (.str (str searchId)) := by
    rw [Python.get, List.lookup_cons, beq_self_eq_true]
  rw [searchIdOf, hget]
  simp [str, scalars?_text]

theorem bodySearchId_searchBody : bodySearchId (searchBody searchId) = some searchId := by
  have hp := printable_searchIdText searchId
  have hloads : loads (searchBody searchId) =
      .ok (.dict [(str "search_id", .str (str searchId))]) := by
    rw [loads, searchBody, detectEncoding_utf8 hp, Encoding.decode, decodeUtf8_utf8 hp]
    exact loadsStr_searchIdText searchId
  rw [bodySearchId, hloads]
  exact searchIdOf_dict searchId

end RoundTrip

theorem searchBody_injective : Function.Injective searchBody := by
  intro s t h
  have hread := congrArg bodySearchId h
  rw [bodySearchId_searchBody, bodySearchId_searchBody] at hread
  exact Option.some.inj hread

end Ioka
