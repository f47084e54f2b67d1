import StorageGateway.Storage.LengthWord

/-!
# Contract storage

The words in the storage of all contracts of a chain. A slot that was never written holds zero.

## Main definitions

* `Storage` — the words, with `Storage.write` and `Storage.writeDynamic`.
-/

namespace StorageGateway

/-- The words in the storage of all contracts. -/
structure Storage where
  /-- The word at a slot of a contract. -/
  word : Address → UInt256 → Word

namespace Storage

/-- Storage before any write. -/
def empty : Storage := ⟨fun _ _ => Word.zero⟩

instance : Inhabited Storage := ⟨empty⟩

/-- Writes a word. -/
def write (s : Storage) (address : Address) (slot : UInt256) (word : Word) : Storage :=
  ⟨fun a n => if n = slot ∧ a = address then word else s.word a n⟩

/-- Writes words one after the other. -/
def writeAll (s : Storage) (address : Address) (writes : List (UInt256 × Word)) : Storage :=
  writes.foldl (fun s (slot, word) => s.write address slot word) s

/-- Writes a byte string of any length at its base slot. -/
def writeDynamic (s : Storage) (address : Address) (slot : UInt256) (value : Bytes) : Storage :=
  s.writeAll address (dynamicWrites slot value)

theorem word_write (s : Storage) (address a : Address) (slot n : UInt256) (word : Word) :
    (s.write address slot word).word a n =
      if n = slot ∧ a = address then word else s.word a n := rfl

end Storage

end StorageGateway
