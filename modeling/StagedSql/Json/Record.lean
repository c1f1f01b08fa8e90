import StagedSql.Json.Reader

/-!
Reading JSON objects as records, of which only some members matter.

What is passed over has to be written as JSON is, but it may be nested to any depth, its numbers
may have any size, and surrogates in its strings need no partner.
-/

namespace StagedSql

namespace Json

open Reader

/-! ### Passing over -/

/-- Whether a character after a backslash stands for a character on its own. -/
def isPlainEscape (c : Char) : Bool :=
  c = '"' || c = '\\' || c = '/' || c = 'b' || c = 'f' || c = 'n' || c = 'r' || c = 't'

/-- What is left of a text after the closing quote of a string. -/
def dropString : List Char → Option (List Char)
  | [] => none
  | '"' :: cs => some cs
  | '\\' :: 'u' :: a :: b :: c :: d :: cs =>
      if [a, b, c, d].all isHexDigit then dropString cs else none
  | '\\' :: c :: cs => if isPlainEscape c then dropString cs else none
  | c :: cs => if c = '\\' || c.toNat < 0x20 then none else dropString cs

def passString : Reader Unit := do
  char '"'
  set (← dropString (← get))

/-- Passes over the name of a member and the colon after it. -/
def passName : Reader Unit := do
  skipBlank
  passString
  skipBlank
  char ':'

/-- Passes over a document that is neither an array nor an object. -/
def passPlain : Reader Unit := do
  match ← peek with
  | some 'n' => text "null"
  | some 't' => text "true"
  | some 'f' => text "false"
  | some '"' => passString
  | _ =>
      discard (charIf '-')
      discard integerDigits
      discard fractionDigits
      discard exponentPart

inductive Enclosure where
  | array
  | object
  deriving DecidableEq

def Enclosure.close : Enclosure → Char
  | .array => ']'
  | .object => '}'

/-- Passes over what is left of some enclosures, the innermost first: a document comes next if
`fresh`, and what follows a document otherwise. Each step but the last one takes a character, so
one more than the length of the text is fuel enough. -/
def passRest : Nat → (fresh : Bool) → List Enclosure → Reader Unit
  | 0, _, _ => failure
  | fuel + 1, true, enclosures => do
      skipBlank
      if ← charIf '[' then
        skipBlank
        if ← charIf ']' then passRest fuel false enclosures
        else passRest fuel true (.array :: enclosures)
      else if ← charIf '{' then
        skipBlank
        if ← charIf '}' then passRest fuel false enclosures
        else
          passName
          passRest fuel true (.object :: enclosures)
      else
        passPlain
        passRest fuel false enclosures
  | _ + 1, false, [] => pure ()
  | fuel + 1, false, e :: enclosures => do
      skipBlank
      if ← charIf ',' then
        if e = .object then passName
        passRest fuel true (e :: enclosures)
      else
        char e.close
        passRest fuel false enclosures

/-- Takes a document off a text without making anything of it. -/
def passOver (fuel : Nat) : Reader Unit := passRest fuel true []

/-! ### Records -/

/-- The members of an object under some names, up to its closing brace. The fuel is that of
`value`. -/
def recordMembers (names : List String) : Nat → Reader (List (String × Json))
  | 0 => failure
  | fuel + 1 => do
      skipBlank
      let name ← string fuel
      skipBlank
      char ':'
      skipBlank
      let here ←
        if names.contains name then do pure [(name, ← value fuel (maxDepth - 1))]
        else do
          passOver fuel
          pure []
      skipBlank
      if ← charIf ',' then return here ++ (← recordMembers names fuel)
      char '}'
      pure here

/-- A document, in whose outermost object only the members under some names count. -/
def record (names : List String) (fuel : Nat) : Reader Json := do
  if ← charIf '{' then
    skipBlank
    if ← charIf '}' then pure (.obj []) else return .obj (← recordMembers names fuel)
  else value fuel maxDepth

/-- The document that a text holds, members as they are written. Of an object, the members under
other names are passed over. -/
def readRecord? (names : List String) (s : String) : Option Json :=
  let whole : Reader Json := do
    skipBlank
    let j ← record names (2 * s.length + 2)
    skipBlank
    pure j
  whole.run? s

end Json

end StagedSql
