import StorageGateway.Bytes

/-!
# Keccak-256

The hash of the storage layout, the tries and the block headers: the Keccak sponge on a state of
25 lanes of 64 bits, absorbing 136 bytes at a time, with the padding that starts with a byte 1.

A state is the list of its lanes, the lane of column `x` and row `y` at index `x + 5 * y`.

## Main definitions

* `Keccak.permute` — the permutation of a state, 24 rounds.
* `keccak256` — the 32-byte digest of a byte string.
-/

namespace StorageGateway

/-- A word of 32 bytes: a storage word, a digest or a command. -/
abbrev Word := FixedBytes 32

namespace Keccak

/-- The 25 lanes of the sponge. -/
abbrev State := List UInt64

/-- How many bytes are absorbed between two permutations. -/
def rate : Nat := 136

/-- The constants that break the symmetry of the rounds, one per round. -/
def roundConstants : List UInt64 :=
  [0x0000000000000001, 0x0000000000008082, 0x800000000000808a, 0x8000000080008000,
   0x000000000000808b, 0x0000000080000001, 0x8000000080008081, 0x8000000000008009,
   0x000000000000008a, 0x0000000000000088, 0x0000000080008009, 0x000000008000000a,
   0x000000008000808b, 0x800000000000008b, 0x8000000000008089, 0x8000000000008003,
   0x8000000000008002, 0x8000000000000080, 0x000000000000800a, 0x800000008000000a,
   0x8000000080008081, 0x8000000000008080, 0x0000000080000001, 0x8000000080008008]

/-- How far each lane is rotated, in the order of the lanes. -/
def rotations : List UInt64 :=
  [ 0,  1, 62, 28, 27,
   36, 44,  6, 55, 20,
    3, 10, 43, 25, 39,
   41, 45, 15, 21,  8,
   18,  2, 61, 56, 14]

/-- Rotation to the left; a shift by 64 is a shift by 0. -/
def rotate (a n : UInt64) : UInt64 := if n = 0 then a else (a <<< n) ||| (a >>> (64 - n))

/-- The lane of column `x` and row `y`. -/
def lane (s : State) (x y : Nat) : UInt64 := s.getD (x + 5 * y) 0

/-- A state from a rule for its lanes. -/
def State.ofLanes (f : (x y : Nat) → UInt64) : State :=
  (List.range 25).map fun i => f (i % 5) (i / 5)

/-- Each lane takes in the parities of two neighbouring columns. -/
def theta (s : State) : State :=
  let parity := (List.range 5).map fun x =>
    lane s x 0 ^^^ lane s x 1 ^^^ lane s x 2 ^^^ lane s x 3 ^^^ lane s x 4
  let effect := (List.range 5).map fun x =>
    parity.getD ((x + 4) % 5) 0 ^^^ rotate (parity.getD ((x + 1) % 5) 0) 1
  State.ofLanes fun x y => lane s x y ^^^ effect.getD x 0

/-- Each lane is rotated by its own amount. -/
def rho (s : State) : State := List.zipWith rotate s rotations

/-- The lanes change places. -/
def pi (s : State) : State := State.ofLanes fun x y => lane s ((x + 3 * y) % 5) x

/-- Each lane takes in the two lanes to its right. -/
def chi (s : State) : State := State.ofLanes fun x y =>
  lane s x y ^^^ (~~~ (lane s ((x + 1) % 5) y) &&& lane s ((x + 2) % 5) y)

/-- The first lane takes in the constant of the round. -/
def iota (constant : UInt64) (s : State) : State := s.modifyHead (· ^^^ constant)

/-- All 24 rounds. -/
def permute (s : State) : State :=
  roundConstants.foldl (fun s constant => iota constant (chi (pi (rho (theta s))))) s

/-- A lane from its bytes, least significant first. -/
def laneOfBytes (bs : Bytes) : UInt64 := bs.foldr (fun b lane => lane <<< 8 ||| b.toUInt64) 0

/-- The eight bytes of a lane, least significant first. -/
def laneToBytes (lane : UInt64) : Bytes :=
  (List.range 8).map fun i => (lane >>> (8 * UInt64.ofNat i)).toUInt8

/-- A block of bytes is added to the first lanes, and the state is permuted. -/
def absorb (s : State) (block : Bytes) : State :=
  let lanes := (Bytes.chunks 8 block).map laneOfBytes
  permute (List.zipWith (· ^^^ ·) s (lanes ++ List.replicate (25 - lanes.length) 0))

/-- The message, a byte 1, zeros, and the top bit of the last byte set, up to a whole number of
blocks. -/
def pad (message : Bytes) : Bytes :=
  let room := rate - message.length % rate
  if room = 1 then message ++ [0x81]
  else message ++ [0x01] ++ List.replicate (room - 2) 0 ++ [0x80]

/-- The state after a padded message. -/
def sponge (message : Bytes) : State :=
  (Bytes.chunks rate (pad message)).foldl absorb (List.replicate 25 0)

end Keccak

/-- The Keccak-256 digest of a byte string: the first 32 bytes of the final state. -/
def keccak256 (message : Bytes) : Word :=
  FixedBytes.padded 32 ((Keccak.sponge message).flatMap Keccak.laneToBytes)

end StorageGateway
