import StorageGateway.Json

/-!
# Chain kinds

The chains whose state a gateway can prove. Each has a verifier of its own, and so a byte layout
of its own for proofs.

## Main definitions

* `ChainKind` — the five kinds, with `ChainKind.name` and `ChainKind.ofName?`.
-/

namespace StorageGateway

/-- The chains that have a verifier. -/
inductive ChainKind where
  /-- Arbitrum, anchored to an assertion node of its rollup contract. -/
  | arbitrum
  /-- An OP Stack chain, anchored to an output root in the output oracle. -/
  | opOutputOracle
  /-- An OP Stack chain, anchored to the root claim of a dispute game. -/
  | opDisputeGame
  /-- Scroll, anchored to a finalized batch of its rollup contract. -/
  | scroll
  /-- The base chain itself, anchored to a recent block hash. -/
  | l1
deriving DecidableEq, Repr

namespace ChainKind

/-- All kinds. -/
def all : List ChainKind := [arbitrum, opOutputOracle, opDisputeGame, scroll, l1]

/-- The name of a kind on the command line and in documents. -/
def name : ChainKind → String
  | arbitrum => "arbitrum"
  | opOutputOracle => "op-output-oracle"
  | opDisputeGame => "op-dispute-game"
  | scroll => "scroll"
  | l1 => "l1"

/-- Whether two texts agree up to the case of the letters A to Z. -/
def sameIgnoringCase (a b : String) : Bool := a.toList.map Char.toLower = b.toList.map Char.toLower

/-- The kind with a name, the case of letters being ignored. -/
def ofName? (text : String) : Option ChainKind :=
  all.find? fun kind => sameIgnoringCase kind.name text

/-- What is said of a name that no kind has. -/
def unknownMessage (text : String) : String :=
  "Unknown chain kind \x60" ++ text ++ "\x60, expected one of: " ++
    String.intercalate ", " (all.map name)

/-- The kind in a document: its exact name, or an object with that name as its only member, of
value `null`. -/
def ofJson? : Json → Option ChainKind
  | .str text => all.find? (·.name = text)
  | .obj [(text, .null)] => all.find? (·.name = text)
  | _ => none

end ChainKind

end StorageGateway
