import StorageGateway.Proofs.BigEndian
import StorageGateway.Proofs.KeyPath

/-!
# Slots bind their key paths

The slot of a key in a mapping is the digest of the key and the slot of the mapping. The key may
have any length, but the slot behind it always takes 32 bytes, so the hashed byte string tells both.
Two paths with equally many keys that lead to one slot are therefore the same, or two different byte
strings that are hashed on the way have the same digest.

## Main definitions

* `Collide` — two different byte strings with the same digest.
* `KeyPath.hashed` — the byte strings that are hashed on the way to a slot.

## Main statements

* `eq_or_collide_of_mappingSlot_eq` — one step of the way.
* `KeyPath.eq_or_collide_of_follow_eq` — the whole way.
* `Tables.keyPath_of_slot_eq` — what two commands with the same slot have selected.
-/

namespace StorageGateway

/-- Two different byte strings with the same digest. -/
def Collide (m₁ m₂ : Bytes) : Prop := m₁ ≠ m₂ ∧ keccak256 m₁ = keccak256 m₂

theorem eq_or_collide {m₁ m₂ : Bytes} (h : keccak256 m₁ = keccak256 m₂) :
    m₁ = m₂ ∨ Collide m₁ m₂ := by
  by_cases hm : m₁ = m₂
  · exact .inl hm
  · exact .inr ⟨hm, h⟩

/-- What is hashed to the slot of `key` in a mapping based at `base`. -/
def mappingMessage (key : Bytes) (base : UInt256) : Bytes := key ++ base.toWord.toList

theorem mappingSlot_eq (key : Bytes) (base : UInt256) :
    mappingSlot key base = (keccak256 (mappingMessage key base)).toUInt256 := rfl

/-! ## One step -/

section

variable {key₁ key₂ : Bytes} {base₁ base₂ : UInt256}

/-- The last 32 bytes of what is hashed are the base, and the others are the key. -/
theorem eq_of_mappingMessage_eq (h : mappingMessage key₁ base₁ = mappingMessage key₂ base₂) :
    key₁ = key₂ ∧ base₁ = base₂ := by
  obtain ⟨hkey, hbase⟩ := List.append_inj' h (by simp)
  refine ⟨hkey, ?_⟩
  rw [← base₁.toUInt256_toWord, ← base₂.toUInt256_toWord, FixedBytes.ext hbase]

/-- Different keys or different bases have different slots, unless there is a collision. -/
theorem eq_or_collide_of_mappingSlot_eq (h : mappingSlot key₁ base₁ = mappingSlot key₂ base₂) :
    (key₁ = key₂ ∧ base₁ = base₂) ∨
      Collide (mappingMessage key₁ base₁) (mappingMessage key₂ base₂) := by
  have hdigest : keccak256 (mappingMessage key₁ base₁) = keccak256 (mappingMessage key₂ base₂) := by
    rw [mappingSlot_eq, mappingSlot_eq] at h
    rw [← (keccak256 (mappingMessage key₁ base₁)).toWord_toUInt256, h, Word.toWord_toUInt256]
  exact (eq_or_collide hdigest).imp_left eq_of_mappingMessage_eq

end

/-! ## The whole way -/

namespace KeyPath

/-- The byte strings that are hashed when the keys are followed from `slot`. -/
def hashedFrom : (slot : UInt256) → (keys : List Bytes) → List Bytes
  | _, [] => []
  | slot, key :: keys => mappingMessage key slot :: hashedFrom (mappingSlot key slot) keys

/-- The byte strings that are hashed on the way to a slot, one for each key. -/
def hashed (p : KeyPath) : List Bytes := hashedFrom p.start p.keys

@[simp] theorem length_hashedFrom (slot : UInt256) (keys : List Bytes) :
    (hashedFrom slot keys).length = keys.length := by
  induction keys generalizing slot with
  | nil => rfl
  | cons key keys ih => rw [hashedFrom, List.length_cons, ih, List.length_cons]

/-- Equally many keys that lead to one slot are the same and start from the same slot, unless there
is a collision on the way. -/
theorem eq_or_collide_of_follow_eq {slot₁ slot₂ : UInt256} {keys₁ keys₂ : List Bytes}
    (hlen : keys₁.length = keys₂.length) (h : follow slot₁ keys₁ = follow slot₂ keys₂) :
    (slot₁ = slot₂ ∧ keys₁ = keys₂) ∨
      ∃ m₁ ∈ hashedFrom slot₁ keys₁, ∃ m₂ ∈ hashedFrom slot₂ keys₂, Collide m₁ m₂ := by
  -- on both lists at once: the rest of the way binds the slots after the first key, and these bind
  -- the first key and the slots before it
  induction keys₁ generalizing slot₁ slot₂ keys₂ with
  | nil =>
    obtain rfl := List.length_eq_zero_iff.1 hlen.symm
    exact .inl ⟨h, rfl⟩
  | cons key₁ keys₁ ih =>
    cases keys₂ with
    | nil => cases hlen
    | cons key₂ keys₂ =>
      rw [follow_cons, follow_cons] at h
      rw [hashedFrom, hashedFrom]
      rcases ih (Nat.succ.inj hlen) h with ⟨hslot, rfl⟩ | ⟨m₁, hm₁, m₂, hm₂, hc⟩
      · rcases eq_or_collide_of_mappingSlot_eq hslot with ⟨rfl, rfl⟩ | hc
        · exact .inl ⟨rfl, rfl⟩
        · exact .inr ⟨_, List.mem_cons_self, _, List.mem_cons_self, hc⟩
      · exact .inr ⟨m₁, List.mem_cons_of_mem _ hm₁, m₂, List.mem_cons_of_mem _ hm₂, hc⟩

/-- A seed that fits in a slot is the number of the slot. -/
theorem toNat_start {p : KeyPath} (hl : p.seed.length ≤ 32) :
    p.start.toNat = BigEndian.decode p.seed := by
  have hlt : BigEndian.decode p.seed < 2 ^ 256 :=
    calc BigEndian.decode p.seed < 256 ^ p.seed.length := BigEndian.decode_lt _
      _ ≤ 256 ^ 32 := Nat.pow_le_pow_right (by decide) hl
      _ = 2 ^ 256 := pow_32_eq
  rw [start, BitVec.toNat_ofNat, Nat.mod_eq_of_lt hlt]

end KeyPath

/-! ## Two commands -/

namespace Tables

theorem length_keys_of_selects {t : Tables} {program : Bytes} {p : KeyPath} {k : Nat}
    (h : t.Selects program p.entries) (hk : program.length = k + 1) : p.keys.length = k := by
  have hlen := h.length_eq
  rw [hk, KeyPath.entries, List.length_cons] at hlen
  exact Nat.succ.inj hlen.symm

/-- **A slot binds its key path.** Two commands that lead to the same slot by equally many hashes,
each with tables of its own, have selected the same number to start from and the same keys, or among
the byte strings that they hash are two different ones with the same digest. -/
theorem keyPath_of_slot_eq {t₁ t₂ : Tables} {c₁ c₂ : Command} {base₁ base₂ : BaseSlot} {k : Nat}
    (h₁ : t₁.derive c₁ = .ok base₁) (h₂ : t₂.derive c₂ = .ok base₂)
    (hk₁ : c₁.executed.length = k + 1) (hk₂ : c₂.executed.length = k + 1)
    (hslot : base₁.slot = base₂.slot) :
    ∃ p₁ p₂ : KeyPath,
      t₁.Selects c₁.executed p₁.entries ∧ t₂.Selects c₂.executed p₂.entries ∧
      base₁.slot = p₁.slot ∧ base₂.slot = p₂.slot ∧
      p₁.hashed.length = k ∧ p₂.hashed.length = k ∧
      ((BigEndian.decode p₁.seed = BigEndian.decode p₂.seed ∧ p₁.keys = p₂.keys) ∨
        ∃ m₁ ∈ p₁.hashed, ∃ m₂ ∈ p₂.hashed, Collide m₁ m₂) := by
  obtain ⟨p₁, hs₁, hl₁, rfl⟩ := derive_eq_ok_iff.1 h₁
  obtain ⟨p₂, hs₂, hl₂, rfl⟩ := derive_eq_ok_iff.1 h₂
  have hkeys₁ := length_keys_of_selects hs₁ hk₁
  have hkeys₂ := length_keys_of_selects hs₂ hk₂
  refine ⟨p₁, p₂, hs₁, hs₂, rfl, rfl, ?_, ?_, ?_⟩
  · rw [KeyPath.hashed, KeyPath.length_hashedFrom, hkeys₁]
  · rw [KeyPath.hashed, KeyPath.length_hashedFrom, hkeys₂]
  · rcases KeyPath.eq_or_collide_of_follow_eq (hkeys₁.trans hkeys₂.symm) hslot with
      ⟨hstart, hkeys⟩ | hc
    · left
      rw [← KeyPath.toNat_start hl₁, ← KeyPath.toNat_start hl₂, hstart]
      exact ⟨rfl, hkeys⟩
    · exact .inr hc

theorem keyPath_of_slot_eq_padded :
    derive ⟨[[], [7]], []⟩ ⟨[0, 0, 1] ++ List.replicate 29 0xff, rfl⟩ =
      .ok ⟨mappingSlot [7] 0, false⟩ ∧
    derive ⟨[[0]], [[7]]⟩ ⟨[1, 0, 0x20] ++ List.replicate 29 0xe0, rfl⟩ =
      .ok ⟨mappingSlot [7] 0, true⟩ ∧
    ∃ p₁ p₂ : KeyPath,
      Selects ⟨[[], [7]], []⟩ [0, 1] p₁.entries ∧ Selects ⟨[[0]], [[7]]⟩ [0, 0x20] p₂.entries ∧
      ((BigEndian.decode p₁.seed = BigEndian.decode p₂.seed ∧ p₁.keys = p₂.keys) ∨
        ∃ m₁ ∈ p₁.hashed, ∃ m₂ ∈ p₂.hashed, Collide m₁ m₂) := by
  have h₁ : derive ⟨[[], [7]], []⟩ ⟨[0, 0, 1] ++ List.replicate 29 0xff, rfl⟩ =
      .ok ⟨mappingSlot [7] 0, false⟩ := rfl
  have h₂ : derive ⟨[[0]], [[7]]⟩ ⟨[1, 0, 0x20] ++ List.replicate 29 0xe0, rfl⟩ =
      .ok ⟨mappingSlot [7] 0, true⟩ := rfl
  obtain ⟨p₁, p₂, hs₁, hs₂, -, -, -, -, hbound⟩ := keyPath_of_slot_eq h₁ h₂ (k := 1) rfl rfl rfl
  exact ⟨h₁, h₂, p₁, p₂, hs₁, hs₂, hbound⟩

end Tables

end StorageGateway
