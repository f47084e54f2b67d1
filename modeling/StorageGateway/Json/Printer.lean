import StorageGateway.Json.Number

/-!
# Writing JSON

Two written forms of a value: on one line without blanks, and with one item or member per line,
two blanks deeper than the line that opens it.

## Main definitions

* `Json.compact` and `Json.pretty`.
-/

namespace StorageGateway.Json

/-- The last two of the four digits of a control character's number. -/
def controlDigits (n : Nat) : List Char := [Nat.digitChar (n / 16), Nat.digitChar (n % 16)]

/-- A character inside a string: quotes, backslashes and control characters are escaped. -/
def escape (c : Char) : List Char :=
  if c = '"' then ['\\', '"']
  else if c = '\\' then ['\\', '\\']
  else if c = '\n' then ['\\', 'n']
  else if c = '\r' then ['\\', 'r']
  else if c = '\t' then ['\\', 't']
  else if c.toNat = 8 then ['\\', 'b']
  else if c.toNat = 12 then ['\\', 'f']
  else if c.toNat < 32 then ['\\', 'u', '0', '0'] ++ controlDigits c.toNat
  else [c]

/-- A string with its quotes. -/
def quote (text : String) : String :=
  "\"" ++ String.ofList (text.toList.flatMap escape) ++ "\""

/-- The text of a value that holds no other values. -/
def scalar : Json → String
  | null => "null"
  | bool true => "true"
  | bool false => "false"
  | int n => toString n
  | real negative magnitude => realText negative magnitude
  | str text => quote text
  | _ => "null"

/-- The opening brace of an object. -/
def openBrace : String := "\x7b"

/-- The closing brace of an object. -/
def closeBrace : String := "\x7d"

mutual

/-- A value on one line. -/
def compact : Json → String
  | arr items => "[" ++ String.intercalate "," (compactItems items) ++ "]"
  | obj members => openBrace ++ String.intercalate "," (compactMembers members) ++ closeBrace
  | j => scalar j

/-- `compact` for the items of an array. -/
def compactItems : List Json → List String
  | [] => []
  | j :: js => j.compact :: compactItems js

/-- `compact` for the members of an object. -/
def compactMembers : List (String × Json) → List String
  | [] => []
  | (name, j) :: rest => (quote name ++ ":" ++ j.compact) :: compactMembers rest

end

/-- Lines between brackets; nothing between them stays on one line. -/
def block (opening closing margin : String) (lines : List String) : String :=
  if lines.isEmpty then opening ++ closing
  else
    let deeper := margin ++ "  "
    opening ++ "\n" ++ deeper ++ String.intercalate (",\n" ++ deeper) lines ++ "\n" ++ margin ++
      closing

mutual

/-- A value over several lines, those after the first starting with `margin`. -/
def prettyAt (margin : String) : Json → String
  | arr items => block "[" "]" margin (prettyItems (margin ++ "  ") items)
  | obj members => block openBrace closeBrace margin (prettyMembers (margin ++ "  ") members)
  | j => scalar j

/-- `prettyAt` for the items of an array. -/
def prettyItems (margin : String) : List Json → List String
  | [] => []
  | j :: js => j.prettyAt margin :: prettyItems margin js

/-- `prettyAt` for the members of an object. -/
def prettyMembers (margin : String) : List (String × Json) → List String
  | [] => []
  | (name, j) :: rest => (quote name ++ ": " ++ j.prettyAt margin) :: prettyMembers margin rest

end

/-- A value over several lines. -/
def pretty (j : Json) : String := j.prettyAt ""

end StorageGateway.Json
