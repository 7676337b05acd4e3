import Ioka.Database.World

/-! # The store around the database

What the search service keeps outside the database: the cache of recent
searches, the queue that the workers read, and the tasks of its own process.
-/

namespace Ioka

/-- The dictionaries in the cache, the last one stored under a key first. -/
structure SearchCache where
  entries : List (String × Json)

namespace SearchCache

def empty : SearchCache := ⟨[]⟩

def get (cache : SearchCache) (key : String) : Option Json :=
  cache.entries.lookup ("flight-search:" ++ key)

def set (cache : SearchCache) (key : String) (value : Json) : SearchCache :=
  ⟨("flight-search:" ++ key, value) :: cache.entries⟩

theorem get_set (cache : SearchCache) (k k' : String) (v : Json) :
    (cache.set k v).get k' = if k' = k then some v else cache.get k' := by
  have hk : "flight-search:" ++ k' = "flight-search:" ++ k ↔ k' = k := by
    simp [String.append_right_inj]
  by_cases h : k' = k
  · subst h
    simp [set, get]
  · have hne := mt hk.mp h
    simp [set, get, List.lookup_cons, h, beq_eq_false_iff_ne.mpr hne]

end SearchCache

structure Platform where
  world : World
  cache : SearchCache
  /-- The ids of the searches published to the queue. -/
  queue : List String
  /-- The ids of the searches handed to a task of the service's own process. -/
  tasks : List String

namespace Platform

def withWorld (s : Platform) (w : World) : Platform := { s with world := w }

/-- A platform on which no search was started yet. -/
def start (w : World) : Platform := ⟨w, .empty, [], []⟩

variable (s : Platform) (w : World)

@[simp] theorem withWorld_world : (s.withWorld w).world = w := rfl
end Platform

end Ioka
