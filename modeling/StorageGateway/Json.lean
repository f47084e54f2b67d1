import StorageGateway.Binary64

/-!
# JSON values

Configurations, node answers and decoded proofs are JSON documents. The members of an object keep
the order in which they were written, a name that occurs twice included.

## Main definitions

* `Json` — the values.
* `Json.sorted` — the same value with the members of every object in alphabetical order.
-/

namespace StorageGateway

/-- A JSON value. -/
inductive Json where
  | null
  | bool (b : Bool)
  /-- A number written as an integer that fits in 64 bits. -/
  | int (n : Int)
  /-- Any other number, rounded. -/
  | real (negative : Bool) (magnitude : Binary64)
  | str (text : String)
  | arr (items : List Json)
  | obj (members : List (String × Json))

namespace Json

instance : Inhabited Json := ⟨null⟩

/-- Puts a member before the first one whose name is greater. -/
def insertMember (name : String) (value : Json) : List (String × Json) → List (String × Json)
  | [] => [(name, value)]
  | (other, v) :: rest =>
    if name < other then (name, value) :: (other, v) :: rest
    else (other, v) :: insertMember name value rest

mutual

/-- The value with the members of every object in alphabetical order. -/
def sorted : Json → Json
  | arr items => arr (sortedItems items)
  | obj members => obj (sortedMembers members)
  | j => j

/-- `sorted` for the items of an array. -/
def sortedItems : List Json → List Json
  | [] => []
  | j :: js => j.sorted :: sortedItems js

/-- `sorted` for the members of an object. -/
def sortedMembers : List (String × Json) → List (String × Json)
  | [] => []
  | (name, j) :: rest => insertMember name j.sorted (sortedMembers rest)

end

end Json

end StorageGateway
