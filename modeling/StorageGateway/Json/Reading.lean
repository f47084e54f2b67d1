import StorageGateway.Json.Shape
import StorageGateway.Slot

/-!
# Values inside JSON

Quantities are written as minimal hexadecimal numbers and byte strings as pairs of digits, both
with `0x`. Readers take more: quantities also as integers and in other bases, byte strings also
without `0x` and as arrays of bytes, records also as arrays of their fields in order.

## Main definitions

* `Json.quantity`, `Json.bytes`, `Json.fixed` — writers, and `Json.quantity?`, `Json.bytes?`,
  `Json.fixed?` — readers.
* `Json.fields?` — the fields of a record, with `required` and `optional`.
-/

namespace StorageGateway.Json

/-! ## Writing -/

/-- A number as minimal hexadecimal text. -/
def quantity {w : Nat} (n : BitVec w) : Json := str (Hex.quantity n.toNat)

/-- A byte string as hexadecimal text. -/
def bytes (bs : Bytes) : Json := str (Hex.ofBytes bs)

/-- A byte string of fixed length as hexadecimal text. -/
def fixed {n : Nat} (a : FixedBytes n) : Json := bytes a.toList

/-- A count. -/
def nat (n : Nat) : Json := int n

/-- Byte strings, one text each. -/
def bytesList (items : List Bytes) : Json := arr (items.map bytes)

/-! ## Quantities -/

/-- The value of a digit in some base up to sixteen. -/
def digit? (base : Nat) (c : Char) : Option Nat :=
  (Hex.value? c).filter (· < base)

/-- The number that digits denote after `n`; underscores are passed over. -/
def digits? (base : Nat) : (n : Nat) → List Char → Option Nat
  | n, [] => some n
  | n, c :: cs =>
    if c = '_' then digits? base n cs
    else match digit? base c with
      | some d => digits? base (base * n + d) cs
      | none => none

/-- The number that a text denotes: hexadecimal, octal or binary after a mark, else decimal. No
digits denote zero. -/
def number? : List Char → Option Nat
  | '0' :: c :: cs =>
    if c = 'x' || c = 'X' then digits? 16 0 cs
    else if c = 'o' || c = 'O' then digits? 8 0 cs
    else if c = 'b' || c = 'B' then digits? 2 0 cs
    else digits? 10 0 ('0' :: c :: cs)
  | cs => digits? 10 0 cs

/-- An integer that is not negative and fits in 64 bits. -/
def nat? : Json → Option Nat
  | int n => if 0 ≤ n ∧ n.toNat < limit64 then some n.toNat else none
  | _ => none

/-- A number that has at most `w` bits. -/
def ofNat? (w n : Nat) : Option (BitVec w) :=
  if (BitVec.ofNat w n).toNat = n then some (BitVec.ofNat w n) else none

/-- A number of `w` bits, as an integer or as text. -/
def quantity? (w : Nat) : Json → Option (BitVec w)
  | str text => (number? text.toList).bind (ofNat? w)
  | j => (nat? j).bind (ofNat? w)

/-! ## Byte strings -/

/-- A byte, as an integer. -/
def byte? (j : Json) : Option UInt8 :=
  (nat? j).bind fun n => if n < 256 then some (UInt8.ofNat n) else none

/-- A byte string, as text or as an array of bytes. -/
def bytes? : Json → Option Bytes
  | str text => Hex.bytes? text
  | arr items => items.mapM byte?
  | _ => none

/-- A byte string of exactly `n` bytes. An array of them may have one more item if that is no
byte. -/
def fixed? (n : Nat) : Json → Option (FixedBytes n)
  | str text => Hex.fixed? n text
  | arr items =>
    match items.drop n with
    | [] => (items.mapM byte?).bind (FixedBytes.ofList? n)
    | [extra] =>
      if (byte? extra).isNone then ((items.take n).mapM byte?).bind (FixedBytes.ofList? n) else none
    | _ => none
  | _ => none

/-- A boolean. -/
def bool? : Json → Option Bool
  | bool b => some b
  | _ => none

/-- An array whose items are all read in the same way. -/
def list? {α : Type} (read : Json → Option α) : Json → Option (List α)
  | arr items => items.mapM read
  | _ => none

/-! ## Records -/

/-- The values of the members with a name. -/
def membersNamed (name : String) (members : List (String × Json)) : List Json :=
  (members.filter (·.1 = name)).map (·.2)

/-- The value of the only member with a name, if there is one; none of several. -/
def member? (members : List (String × Json)) (name : String) : Option (Option Json) :=
  match membersNamed name members with
  | [] => some none
  | [j] => some (some j)
  | _ => none

/-- The fields of a record in the order of `names`, each of which may be missing. A record is an
object, in which unknown names are ignored and no known name occurs twice, or an array of the
first fields. -/
def fields? (names : List String) : Json → Option (List (Option Json))
  | obj members => names.mapM (member? members)
  | arr items =>
    if items.length ≤ names.length then
      some (items.map some ++ List.replicate (names.length - items.length) none)
    else none
  | _ => none

/-- Reads the fields of a record one after the other. -/
abbrev FieldReader := StateT (List (Option Json)) Option

/-- The next field, which may be missing. -/
def nextField : FieldReader (Option Json) := fun fields =>
  match fields with
  | [] => none
  | field :: rest => some (field, rest)

/-- The next field, which has to be there. -/
def required {α : Type} (read : Json → Option α) : FieldReader α := do
  match ← nextField with
  | some j => StateT.lift (read j)
  | none => failure

/-- The next field, which has a value of its own if it is missing. -/
def defaulted {α : Type} (value : α) (read : Json → Option α) : FieldReader α := do
  match ← nextField with
  | some j => StateT.lift (read j)
  | none => pure value

/-- The next field, which may be missing or `null`. -/
def optional {α : Type} (read : Json → Option α) : FieldReader (Option α) := do
  match ← nextField with
  | some null => pure none
  | some j => StateT.lift ((read j).map some)
  | none => pure none

/-- Reads a record with fields of these names. -/
def record? {α : Type} (fields : List (String × Shape)) (read : FieldReader α) (j : Json) :
    Option α := do
  let values ← fields? (fields.map (·.1)) j
  let (a, _) ← read values
  pure a

end StorageGateway.Json
