/-!
Lists in the order of first addition, and texts in segments.

An element stays where it was first added, and an entry with a key takes the last value. A text
without a separator is one segment, so there is always at least one.
-/

namespace StagedSql

/-- Adds an element at the end unless it is there already. -/
def addOnce {α : Type} [BEq α] (xs : List α) (x : α) : List α :=
  if xs.contains x then xs else xs ++ [x]

/-- The elements in the order in which they first appear, once each. -/
def distinct {α : Type} [BEq α] (xs : List α) : List α :=
  xs.foldl addOnce []

/-- Sets the value of a key: in its place if the key is there, and at the end otherwise. -/
def putKey {κ α : Type} [BEq κ] (key : κ) (value : α) : List (κ × α) → List (κ × α)
  | [] => [(key, value)]
  | (k, v) :: rest => if k == key then (k, value) :: rest else (k, v) :: putKey key value rest

def hasKey {κ α : Type} [BEq κ] (entries : List (κ × α)) (key : κ) : Bool :=
  entries.any fun e => e.1 == key

/-- The entries with keys put in one after the other. -/
def ofEntries {κ α : Type} [BEq κ] (entries : List (κ × α)) : List (κ × α) :=
  entries.foldl (fun acc e => putKey e.1 e.2 acc) []

/-! ### Segments -/

def consSegment (c : Char) : List (List Char) → List (List Char)
  | [] => [[c]]
  | s :: rest => (c :: s) :: rest

/-- The segments between the occurrences of `sep`. -/
def splitAtChar (sep : Char) : List Char → List (List Char)
  | [] => [[]]
  | c :: cs => if c = sep then [] :: splitAtChar sep cs else consSegment c (splitAtChar sep cs)

/-- The segments between the occurrences of two `sep` in a row, found from the left. -/
def splitAtPair (sep : Char) : List Char → List (List Char)
  | [] => [[]]
  | [c] => [[c]]
  | c :: d :: cs =>
      if c = sep ∧ d = sep then [] :: splitAtPair sep cs
      else consSegment c (splitAtPair sep (d :: cs))

end StagedSql
