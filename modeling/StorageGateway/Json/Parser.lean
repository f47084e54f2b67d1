import StorageGateway.Json.Excess
import StorageGateway.Json.Shape

/-!
# Reading JSON text

`Json.parseAs?` reads a whole text that should hold a value of some shape: one value, with blanks
around it and between its tokens. Commas without a value after them and anything after the value
are refused. So are strings that stand for no text and numbers that have no value, unless they are
passed over.

What has another shape than expected is read all the same, and left to the reader of the value.

## Main definitions

* `Json.parseAs?` — reading a value of a shape, and `Json.parse?` — reading any value.
-/

namespace StorageGateway.Json

/-- A number without its sign that should have a shape, and the rest. -/
def readNumber (shape : Shape) (negative : Bool) (cs : List Char) : Option (Json × List Char) := do
  let (value, rest) ← readUnsigned negative cs
  let value ← shape.number? value
  some (value, rest)

mutual

/-- The value at the front of a text, and the rest. -/
def readValue : (fuel : Nat) → (shape : Shape) → List Char → Option (Json × List Char)
  | 0, _, _ => none
  | fuel + 1, shape, cs =>
    match skipBlanks cs with
    | 'n' :: 'u' :: 'l' :: 'l' :: rest => some (null, rest)
    | 't' :: 'r' :: 'u' :: 'e' :: rest => some (bool true, rest)
    | 'f' :: 'a' :: 'l' :: 's' :: 'e' :: rest => some (bool false, rest)
    | '"' :: rest => do
      let (text, rest) ← readString rest
      let text ← shape.text? text
      some (str text, rest)
    | '-' :: rest => readNumber shape true rest
    | '[' :: rest =>
      match skipBlanks rest with
      | ']' :: rest => some (arr [], rest)
      | _ => readItems fuel shape 0 [] rest
    | c :: rest =>
      if c.toNat = 0x7b then
        match skipBlanks rest with
        | d :: rest' =>
          if d.toNat = 0x7d then some (obj [], rest') else readMembers fuel shape [] rest
        | [] => none
      else readNumber shape false (c :: rest)
    | [] => none

/-- The items of an array up to its closing bracket, after the `count` already read, which come in
reverse. -/
def readItems : (fuel : Nat) → (shape : Shape) → (count : Nat) → List Json → List Char →
    Option (Json × List Char)
  | 0, _, _, _, _ => none
  | fuel + 1, shape, count, items, cs =>
    match readValue fuel (shape.item count) cs with
    | none => none
    | some (item, rest) =>
      match skipBlanks rest with
      | ',' :: rest =>
        if shape.isFull (count + 1) then
          (endAfterComma rest).map fun rest => (arr (item :: items).reverse, rest)
        else readItems fuel shape (count + 1) (item :: items) rest
      | ']' :: rest => some (arr (item :: items).reverse, rest)
      | _ => none

/-- The members of an object up to its closing brace, after those already read, which come in
reverse. -/
def readMembers : (fuel : Nat) → (shape : Shape) → List (String × Json) → List Char →
    Option (Json × List Char)
  | 0, _, _, _ => none
  | fuel + 1, shape, members, cs =>
    match skipBlanks cs with
    | '"' :: rest =>
      match readString rest with
      | none => none
      | some (name, rest) =>
        match skipBlanks rest, shape.member? name with
        | ':' :: rest, some member =>
          match readValue fuel member rest with
          | none => none
          | some (value, rest) =>
            let members := (name.getD "", value) :: members
            match skipBlanks rest with
            | c :: rest =>
              if c = ',' then readMembers fuel shape members rest
              else if c.toNat = 0x7d then some (obj members.reverse, rest)
              else none
            | [] => none
        | _, _ => none
    | _ => none

end

/-- The value that a whole text is, if it should have a shape. -/
def parseAs? (shape : Shape) (text : String) : Option Json :=
  let cs := text.toList
  match readValue (2 * cs.length + 2) shape cs with
  | some (j, rest) => if (skipBlanks rest).isEmpty then some j else none
  | none => none

/-- The value that a whole text is. -/
def parse? (text : String) : Option Json := parseAs? .any text

end StorageGateway.Json
