import StagedSql.Error

/-!
The database in use: a stack of URLs.
-/

namespace StagedSql

/-- URLs, the one in use first, with the guards that are still held. -/
structure UrlStack where
  urls : List String
  /-- The guards that have not been dropped. -/
  held : List Nat
  /-- How many guards there have been. -/
  guards : Nat

namespace UrlStack

def empty : UrlStack := ⟨[], [], 0⟩

def ofUrl (url : String) : UrlStack := ⟨[url], [], 0⟩

/-- The URL in use. -/
def current (s : UrlStack) : Except Error String :=
  match s.urls with
  | url :: _ => .ok url
  | [] => .error (.connection "no database url configured")

/-- Uses another URL. The guard is the number of guards before it. -/
def push (s : UrlStack) (url : String) : UrlStack :=
  ⟨url :: s.urls, s.guards :: s.held, s.guards + 1⟩

/-- Drops a guard: the top URL goes, whichever guard it came with. A guard counts once. -/
def drop (s : UrlStack) (g : Nat) : UrlStack :=
  if s.held.contains g then ⟨s.urls.tail, s.held.erase g, s.guards⟩ else s

end UrlStack

end StagedSql
