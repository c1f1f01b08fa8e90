import StagedSql.Text.Alphanumeric

/-!
References to variables inside a text.

A reference is `$` and a name, or `$` and a name between braces. Without braces a name is the
longest run of letters, digits and underscores; a `$` before anything else stands for itself.
-/

namespace StagedSql

inductive Piece where
  | plain (c : Char)
  | reference (name : List Char)
  deriving DecidableEq

def isVariableChar (c : Char) : Bool := isAlphanumeric c || c = '_'

/-- Cuts a text into plain characters and references. Braces that are not closed reach to the end
of the text. -/
def pieces : List Char → List Piece
  | [] => []
  | '$' :: '{' :: cs =>
      .reference (cs.takeWhile (· ≠ '}')) :: pieces ((cs.dropWhile (· ≠ '}')).drop 1)
  | '$' :: cs =>
      if (cs.takeWhile isVariableChar).isEmpty then .plain '$' :: pieces cs
      else .reference (cs.takeWhile isVariableChar) :: pieces (cs.dropWhile isVariableChar)
  | c :: cs => .plain c :: pieces cs
termination_by cs => cs.length
decreasing_by
  · have := (List.dropWhile_suffix (l := cs) (· ≠ '}')).length_le
    simp only [List.length_drop, List.length_cons]
    omega
  · simp
  · have := (List.dropWhile_suffix (l := cs) isVariableChar).length_le
    simp only [List.length_cons]
    omega
  · simp

def Piece.name? : Piece → Option String
  | .plain _ => none
  | .reference name => some (String.ofList name)

def referencedNames (s : String) : List String :=
  (pieces s.toList).filterMap Piece.name?

/-- The text of a piece, or the name of a variable that is not set. -/
def Piece.text (env : String → Option String) : Piece → Except String String
  | .plain c => .ok (String.ofList [c])
  | .reference name =>
      match env (String.ofList name) with
      | some value => .ok value
      | none => .error (String.ofList name)

/-- A text with the values of its variables, or the name of the first one that is not set. -/
def expand (env : String → Option String) (s : String) : Except String String :=
  return String.join (← (pieces s.toList).mapM (Piece.text env))

end StagedSql
