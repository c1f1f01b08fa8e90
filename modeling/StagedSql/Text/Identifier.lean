import StagedSql.Lists
import StagedSql.Text.Alphanumeric

/-!
Names that are written into SQL text without quotes.

Letters and digits are those of ASCII, but a precision may be written in the digits of any
script.
-/

namespace StagedSql

def isNameStart (c : Char) : Bool := c.isAlpha || c == '_'

def isNameChar (c : Char) : Bool := c.isAlphanum || c == '_'

def isWord : List Char → Bool
  | [] => false
  | c :: cs => isNameStart c && cs.all isNameChar

/-- Whether a text is a list of words joined by dots. -/
def isDottedName (s : String) : Bool :=
  (splitAtChar '.' s.toList).all isWord

/-! ### Types -/

/-- Whether characters form the first word of a type, in which dots may stand after the first
character. -/
def isTypeHead : List Char → Bool
  | [] => false
  | c :: cs => isNameStart c && cs.all fun c => isNameChar c || c == '.'

def isTypeWords : List (List Char) → Bool
  | [] => false
  | first :: rest => isTypeHead first && rest.all isWord

def isDigits (cs : List Char) : Bool :=
  !cs.isEmpty && cs.all isDecimalDigit

def dropBlank : List Char → List Char
  | ' ' :: cs => cs
  | cs => cs

/-- Whether characters are a number or two numbers with a comma and at most one blank between
them. -/
def isPrecision (cs : List Char) : Bool :=
  match splitAtChar ',' cs with
  | [n] => isDigits n
  | [n, m] => isDigits n && isDigits (dropBlank m)
  | _ => false

/-- Whether characters are any number of pairs of brackets. -/
def isArraySuffix : List Char → Bool
  | [] => true
  | '[' :: ']' :: cs => isArraySuffix cs
  | _ => false

/-- Whether characters are an optional precision in parentheses and any number of pairs of
brackets. -/
def isTypeSuffix : List Char → Bool
  | '(' :: cs =>
      match cs.span (· != ')') with
      | (_, []) => false
      | (precision, _ :: rest) => isPrecision precision && isArraySuffix rest
  | cs => isArraySuffix cs

/-- Whether a text is a type: words with single blanks between them, then a precision and
brackets. -/
def isTypeName (s : String) : Bool :=
  let (words, suffix) := s.toList.span fun c => c != '(' && c != '['
  isTypeWords (splitAtChar ' ' words) && isTypeSuffix suffix

end StagedSql
