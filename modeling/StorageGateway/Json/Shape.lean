import StorageGateway.Json

/-!
# Shapes of documents

Who reads a text knows what it should hold. A shape says so as far as the reading depends on it:
which members are looked at, and where a byte string of fixed length stands.

## Main definitions

* `Json.Shape` — what is expected of a value.
* `Json.Shape.item`, `Json.Shape.member?` — what is then expected of the values inside it.
-/

namespace StorageGateway.Json

/-- What is expected of a value. -/
inductive Shape where
  /-- Some value. -/
  | any
  /-- A value that is passed over. -/
  | ignored
  /-- A byte string of `n` bytes. -/
  | fixed (n : Nat)
  /-- An array of values of one shape. -/
  | list (item : Shape)
  /-- A record with fields of these names, or an array of its first fields. -/
  | record (fields : List (String × Shape))

namespace Shape

/-- What is expected of the item at an index of an array. -/
def item : Shape → (i : Nat) → Shape
  | ignored, _ => ignored
  | list s, _ => s
  | record fields, i => (fields[i]?.map (·.2)).getD any
  | _, _ => any

/-- What is expected of the member with a name, if the name stands for a text. Only who passes a
value over puts up with a name that does not, and a record passes over the names it does not
know. -/
def member? : Shape → (name : Option String) → Option Shape
  | ignored, _ => some ignored
  | _, none => none
  | record fields, some name => some ((fields.lookup name).getD ignored)
  | _, some _ => some any

/-- The text of a string, if it stands for one or is passed over. -/
def text? : Shape → (text : Option String) → Option String
  | ignored, text => some (text.getD "")
  | _, text => text

/-- The value of a number, if it has one or is passed over. -/
def number? : Shape → (value : Option Json) → Option Json
  | ignored, value => some (value.getD null)
  | _, value => value

/-- Whether an array of `count` items has all the bytes that are expected of it. -/
def isFull : Shape → (count : Nat) → Bool
  | fixed n, count => count = n
  | _, _ => false

end Shape

end StorageGateway.Json
