/-!
Readers of text: functions that take what they understand off the front of a list of characters.

A reader either fails or gives a result and the characters that are left. Alternatives (`<|>`) go
back to where they started.
-/

namespace StagedSql

/-- Takes a value off the front of a text, or fails. -/
abbrev Reader := StateT (List Char) Option

namespace Reader

/-- The next character, which stays in the text; `none` at the end. -/
def peek : Reader (Option Char) := fun cs => some (cs.head?, cs)

def next : Reader Char
  | [] => none
  | c :: cs => some (c, cs)

def satisfy (p : Char → Bool) : Reader Char
  | [] => none
  | c :: cs => if p c then some (c, cs) else none

def char (c : Char) : Reader Unit
  | [] => none
  | d :: cs => if d = c then some ((), cs) else none

/-- Takes a given character if it comes next, and says whether it did. -/
def charIf (c : Char) : Reader Bool
  | [] => some (false, [])
  | d :: cs => if d = c then some (true, cs) else some (false, d :: cs)

/-- Takes the longest run of characters that satisfy `p`. -/
def takeWhile (p : Char → Bool) : Reader (List Char) :=
  fun cs => some (cs.span p)

/-- Takes the longest run of characters that satisfy `p`, which must not be empty. -/
def takeWhile1 (p : Char → Bool) : Reader (List Char) := fun cs =>
  match cs.span p with
  | ([], _) => none
  | r => some r

def text (s : String) : Reader Unit := fun cs =>
  if s.toList.isPrefixOf cs then some ((), cs.drop s.toList.length) else none

def atEnd : Reader Unit
  | [] => some ((), [])
  | _ :: _ => none

/-- Runs a reader on a whole text, all of which it has to take. -/
def run? {α : Type} (r : Reader α) (s : String) : Option α :=
  match r s.toList with
  | some (a, []) => some a
  | _ => none

def exactly (p : Char → Bool) : Nat → Reader (List Char)
  | 0 => pure []
  | n + 1 => do
      let c ← satisfy p
      let cs ← exactly p n
      pure (c :: cs)

end Reader

/-! ### Digits -/

def digitValue (c : Char) : Nat :=
  if '0' ≤ c ∧ c ≤ '9' then c.toNat - '0'.toNat
  else if 'a' ≤ c ∧ c ≤ 'f' then c.toNat - 'a'.toNat + 10
  else if 'A' ≤ c ∧ c ≤ 'F' then c.toNat - 'A'.toNat + 10
  else 0

def isHexDigit (c : Char) : Bool :=
  c.isDigit || ('a' ≤ c && c ≤ 'f') || ('A' ≤ c && c ≤ 'F')

def digitsValue (base : Nat) (ds : List Char) : Nat :=
  ds.foldl (fun n d => n * base + digitValue d) 0

end StagedSql
