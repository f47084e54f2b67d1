import StorageGateway.Cli.Run
import StorageGateway.Proofs.Abi
import StorageGateway.Simulated.Chain

/-!
# Call data is served in one form only

The arguments of a call have one encoding. A gateway serves it as the request that it stands for,
and refuses any other call data before it asks its service anything: by the selector if that is of
neither form, and for its encoding otherwise.

Byte strings in memory are shorter than `2 ^ 63` bytes; the statements about encodings are for
those.

## Main statements

* `SingleCall.encode_of_decode`, `SingleCall.decode_encode` — call data for one target.
* `BatchCall.encode_of_decode`, `BatchCall.decode_encode` — call data for several targets.
* `Gateway.answer_of_single`, `Gateway.answer_of_batch`, `Gateway.answer_of_other` — what the
  selector decides.
* `Gateway.answer_exact` — which call data is served, and as what.
-/

namespace StorageGateway

open Abi

/-! ## Words that hold addresses -/

namespace Address

theorem valid_toWord (a : Address) : Codec.address.valid a.toWord = true := by
  simp [Codec.address, toWord]

/-- A word that holds an address is the word of the address. -/
theorem toWord_ofWord {w : Word} (h : Codec.address.valid w = true) : toWord (ofWord w) = w := by
  have hzeros : w.toList.take 12 = List.replicate 12 0 := by
    rw [List.eq_replicate_iff]
    refine ⟨by simp, ?_⟩
    intro b hb
    simpa using List.all_eq_true.1 h b hb
  apply FixedBytes.ext
  change List.replicate 12 0 ++ w.toList.drop 12 = w.toList
  rw [← hzeros, List.take_append_drop]

end Address

/-! ## Selectors -/

@[simp] theorem length_selectorOf (signature : String) : (selectorOf signature).length = 4 := by
  simp [selectorOf]

/-- The arguments are what follows the selector. -/
theorem argumentsOf_eq_ok_iff {selector data arguments : Bytes} (hs : selector.length = 4) :
    argumentsOf selector data = .ok arguments ↔ data = selector ++ arguments := by
  rw [argumentsOf]
  constructor
  · intro h
    by_cases ht : data.take 4 = selector
    · rw [if_pos ht] at h
      cases h
      rw [← ht, List.take_append_drop]
    · rw [if_neg ht] at h
      cases h
  · intro h
    have ht : data.take 4 = selector := by rw [h, ← hs, List.take_left]
    have hd : data.drop 4 = arguments := by rw [h, ← hs, List.drop_left]
    rw [if_pos ht, hd]

theorem SingleCall.length_selector : SingleCall.selector.length = 4 := length_selectorOf _

theorem BatchCall.length_selector : BatchCall.selector.length = 4 := length_selectorOf _

theorem SingleCall.selector_ne : SingleCall.selector ≠ BatchCall.selector := by
  decide +kernel

/-! ## One target -/

namespace SingleCall

variable {data : Bytes} {c : SingleCall}

theorem lawful_fields : fields.Lawful :=
  .cons .address (.cons (.array .word) (.single (.array .bytes)))

theorem valid_fields {target : Word} {commands : List Command} {constants : List Bytes} :
    fields.valid (target, commands, constants) = Codec.address.valid target := by
  simp [fields, commandsCodec]

/-- Accepted call data is the encoding of its call. -/
theorem encode_of_decode (h : decode data = .ok c) : c.encode = data := by
  obtain ⟨arguments, harguments, h⟩ := Except.bind_eq_ok_iff.1 h
  obtain ⟨⟨target, commands, constants⟩, hread, h⟩ := Except.bind_eq_ok_iff.1 h
  obtain ⟨hencode, hvalid, -⟩ := Fields.decode_eq_ok_iff.1 hread
  rw [valid_fields] at hvalid
  cases h
  rw [encode, Address.toWord_ofWord hvalid, hencode,
    ← (argumentsOf_eq_ok_iff length_selector).1 harguments]

/-- The encoding of a call is accepted. -/
theorem decode_encode (hl : c.encode.length < 2 ^ 63) : decode c.encode = .ok c := by
  have harguments : argumentsOf selector c.encode = .ok _ :=
    (argumentsOf_eq_ok_iff length_selector).2 rfl
  have hshort : (fields.encode (c.target.toWord, c.commands, c.constants)).length <
      Codec.addressable := by
    rw [encode, List.length_append] at hl
    rw [Codec.addressable]
    omega
  have hvalid : fields.valid (c.target.toWord, c.commands, c.constants) = true :=
    valid_fields.trans (Address.valid_toWord c.target)
  have hread := lawful_fields.decode_encode arguments hshort hvalid
  simp only [decode, harguments, hread, bind, Except.bind, Address.ofWord_toWord]
  rfl

/-- The answer to a call holds the proof. -/
theorem decodeReturn_encodeReturn {proof : Bytes} (hl : (encodeReturn proof).length < 2 ^ 63) :
    decodeReturn (encodeReturn proof) = .ok proof :=
  (Fields.Lawful.single .bytes).decode_encode _ hl rfl

end SingleCall

/-! ## Several targets -/

namespace BatchCall

variable {data : Bytes} {c : BatchCall}

theorem lawful_fields : fields.Lawful :=
  .single (.array (.tuple
    (.cons .address (.cons (.array .word) (.cons (.array .bytes) (.single .word))))))

theorem valid_fields {tokens : List Tokens} :
    fields.valid tokens = true ↔ ∀ t ∈ tokens, Codec.address.valid t.1 = true := by
  simp [fields, commandsCodec]

/-- A request is told from its values. -/
theorem map_ofTokens (requests : List TargetRequest) :
    (requests.map toTokens).map ofTokens = requests := by
  have hid : ofTokens ∘ toTokens = id := by
    funext r
    simp [ofTokens, toTokens]
  rw [List.map_map, hid, List.map_id]

/-- Values with an address are told from their request. -/
theorem map_toTokens {tokens : List Tokens}
    (h : ∀ t ∈ tokens, Codec.address.valid t.1 = true) :
    (tokens.map ofTokens).map toTokens = tokens := by
  have hid : ∀ t ∈ tokens, (toTokens ∘ ofTokens) t = id t := by
    intro t ht
    simp [ofTokens, toTokens, Address.toWord_ofWord (h t ht)]
  rw [List.map_map, List.map_congr_left hid, List.map_id]

/-- Accepted call data is the encoding of its call. -/
theorem encode_of_decode (h : decode data = .ok c) : c.encode = data := by
  obtain ⟨arguments, harguments, h⟩ := Except.bind_eq_ok_iff.1 h
  obtain ⟨tokens, hread, h⟩ := Except.bind_eq_ok_iff.1 h
  obtain ⟨hencode, hvalid, -⟩ := Fields.decode_eq_ok_iff.1 hread
  cases h
  rw [encode, map_toTokens (valid_fields.1 hvalid), hencode,
    ← (argumentsOf_eq_ok_iff length_selector).1 harguments]

/-- The encoding of a call is accepted. -/
theorem decode_encode (hl : c.encode.length < 2 ^ 63) : decode c.encode = .ok c := by
  have harguments : argumentsOf selector c.encode = .ok _ :=
    (argumentsOf_eq_ok_iff length_selector).2 rfl
  have hshort : (fields.encode (c.requests.map toTokens)).length < Codec.addressable := by
    rw [encode, List.length_append] at hl
    rw [Codec.addressable]
    omega
  have hvalid : fields.valid (c.requests.map toTokens) = true := by
    simp [valid_fields, toTokens, Address.valid_toWord]
  have hread := lawful_fields.decode_encode arguments hshort hvalid
  simp only [decode, harguments, hread, bind, Except.bind, map_ofTokens]
  rfl

/-- The answer to a call holds the proofs. -/
theorem decodeReturn_encodeReturn {proofs : List Bytes}
    (hl : (encodeReturn proofs).length < 2 ^ 63) :
    decodeReturn (encodeReturn proofs) = .ok proofs :=
  (Fields.Lawful.single (.array .bytes)).decode_encode _ hl (by simp)

end BatchCall

/-! ## Answering -/

/-- The command line program prints call data that a gateway with its configuration takes. -/
theorem Cli.perform_calldata {files : Files} {config : Config} {c : SingleCall}
    (hcount : c.commands.length ≤ config.maxCommands) :
    perform files config (.calldata c.target c.commands c.constants) =
      { exit := 0, stdout := Hex.ofBytes c.encode ++ "\n" } := by
  have hfew : ¬ config.maxCommands < c.commands.length := by omega
  simp only [perform, checkCount, if_neg hfew]

namespace Gateway

variable {σ β : Type} {data : Bytes}

/-- Call data with the selector for one target is served as its call or refused. -/
theorem answer_of_single (g : Gateway σ β) (hs : data.take 4 = SingleCall.selector) :
    g.answer data = (do
      let call ← Run.ofResult (Result.ofAbi (SingleCall.decode data))
      let proof ← g.prove call.target call.commands call.constants
      pure (SingleCall.encodeReturn proof)) := by
  have hlong : ¬ data.length < 4 := by
    have hlen := congrArg List.length hs
    rw [List.length_take, SingleCall.length_selector] at hlen
    omega
  rw [answer, if_neg hlong, if_pos hs]

/-- Call data with the selector for several targets is served as its call or refused. -/
theorem answer_of_batch (g : Gateway σ β) (hb : data.take 4 = BatchCall.selector) :
    g.answer data = (do
      let call ← Run.ofResult (Result.ofAbi (BatchCall.decode data))
      let proofs ← g.proveAll call.requests
      pure (BatchCall.encodeReturn proofs)) := by
  have hlong : ¬ data.length < 4 := by
    have hlen := congrArg List.length hb
    rw [List.length_take, BatchCall.length_selector] at hlen
    omega
  have hs : data.take 4 ≠ SingleCall.selector := by
    rw [hb]
    exact SingleCall.selector_ne.symm
  rw [answer, if_neg hlong, if_neg hs, if_pos hb]

/-- Other call data is refused for its selector. -/
theorem answer_of_other (g : Gateway σ β) (hs : data.take 4 ≠ SingleCall.selector)
    (hb : data.take 4 ≠ BatchCall.selector) :
    g.answer data = throw (.unknownSelector (data.take 4)) := by
  rw [answer]
  by_cases hl : data.length < 4
  · rw [if_pos hl, List.take_of_length_le (Nat.le_of_lt hl)]
    rfl
  · rw [if_neg hl, if_neg hs, if_neg hb]

/-- A call for one target is answered with the proof of the target. -/
theorem answer_encode_single (g : Gateway σ β) {c : SingleCall} (hl : c.encode.length < 2 ^ 63) :
    g.answer c.encode = (do
      let proof ← g.prove c.target c.commands c.constants
      pure (SingleCall.encodeReturn proof)) := by
  have hs : c.encode.take 4 = SingleCall.selector := List.take_left' SingleCall.length_selector
  rw [answer_of_single g hs, SingleCall.decode_encode hl]
  rfl

/-- A call for several targets is answered with the proofs of the targets. -/
theorem answer_encode_batch (g : Gateway σ β) {c : BatchCall} (hl : c.encode.length < 2 ^ 63) :
    g.answer c.encode = (do
      let proofs ← g.proveAll c.requests
      pure (BatchCall.encodeReturn proofs)) := by
  have hb : c.encode.take 4 = BatchCall.selector := List.take_left' BatchCall.length_selector
  rw [answer_of_batch g hb, BatchCall.decode_encode hl]
  rfl

/-- What is no call for one target is refused, for its encoding. -/
theorem answer_of_encode_ne_single (g : Gateway σ β) (hs : data.take 4 = SingleCall.selector)
    (hne : ∀ c : SingleCall, c.encode ≠ data) : ∃ cause, g.answer data = throw (.abi cause) := by
  rw [answer_of_single g hs]
  cases hread : SingleCall.decode data with
  | error cause => exact ⟨cause, Run.error_bind _ _⟩
  | ok c => exact absurd (SingleCall.encode_of_decode hread) (hne c)

/-- What is no call for several targets is refused, for its encoding. -/
theorem answer_of_encode_ne_batch (g : Gateway σ β) (hb : data.take 4 = BatchCall.selector)
    (hne : ∀ c : BatchCall, c.encode ≠ data) : ∃ cause, g.answer data = throw (.abi cause) := by
  rw [answer_of_batch g hb]
  cases hread : BatchCall.decode data with
  | error cause => exact ⟨cause, Run.error_bind _ _⟩
  | ok c => exact absurd (BatchCall.encode_of_decode hread) (hne c)

/-- **A gateway serves exactly the encodings of calls.** The encoding of a call is served as the
call, with the proofs encoded in the answer; for one target it is what the command line program
prints. Any other call data is refused without a question to the service. No two byte strings are
served as the same call. -/
theorem answer_exact (g : Gateway σ β) :
    (∀ (target : Address) (commands : List Command) (constants : List Bytes),
      (SingleCall.encode ⟨target, commands, constants⟩).length < 2 ^ 63 →
        g.answer (SingleCall.encode ⟨target, commands, constants⟩) = (do
          let proof ← g.prove target commands constants
          pure (SingleCall.encodeReturn proof))) ∧
    (∀ (files : Cli.Files) (target : Address) (commands : List Command) (constants : List Bytes),
      commands.length ≤ g.config.maxCommands →
        Cli.perform files g.config (.calldata target commands constants) =
          { exit := 0,
            stdout := Hex.ofBytes (SingleCall.encode ⟨target, commands, constants⟩) ++ "\n" }) ∧
    (∀ proof, (SingleCall.encodeReturn proof).length < 2 ^ 63 →
      SingleCall.decodeReturn (SingleCall.encodeReturn proof) = .ok proof) ∧
    (∀ requests : List TargetRequest, (BatchCall.encode ⟨requests⟩).length < 2 ^ 63 →
      g.answer (BatchCall.encode ⟨requests⟩) = (do
        let proofs ← g.proveAll requests
        pure (BatchCall.encodeReturn proofs))) ∧
    (∀ proofs, (BatchCall.encodeReturn proofs).length < 2 ^ 63 →
      BatchCall.decodeReturn (BatchCall.encodeReturn proofs) = .ok proofs) ∧
    (∀ data : Bytes, data.length < 4 → g.answer data = throw (.unknownSelector data)) ∧
    (∀ data : Bytes, data.take 4 ≠ SingleCall.selector → data.take 4 ≠ BatchCall.selector →
      g.answer data = throw (.unknownSelector (data.take 4))) ∧
    (∀ data : Bytes, data.take 4 = SingleCall.selector → (∀ c : SingleCall, c.encode ≠ data) →
      ∃ cause, g.answer data = throw (.abi cause)) ∧
    (∀ data : Bytes, data.take 4 = BatchCall.selector → (∀ c : BatchCall, c.encode ≠ data) →
      ∃ cause, g.answer data = throw (.abi cause)) ∧
    (∀ data₁ data₂ c, SingleCall.decode data₁ = .ok c → SingleCall.decode data₂ = .ok c →
      data₁ = data₂) ∧
    ∀ data₁ data₂ c, BatchCall.decode data₁ = .ok c → BatchCall.decode data₂ = .ok c →
      data₁ = data₂ := by
  refine ⟨fun _ _ _ => answer_encode_single g, ?_, fun _ => SingleCall.decodeReturn_encodeReturn,
    fun _ => answer_encode_batch g, fun _ => BatchCall.decodeReturn_encodeReturn, ?_,
    fun _ => answer_of_other g, fun _ => answer_of_encode_ne_single g,
    fun _ => answer_of_encode_ne_batch g, ?_, ?_⟩
  · intro files target commands constants hcount
    exact Cli.perform_calldata (c := ⟨target, commands, constants⟩) hcount
  · intro data hl
    rw [answer, if_pos hl]
    rfl
  · intro data₁ data₂ c h₁ h₂
    rw [← SingleCall.encode_of_decode h₁, SingleCall.encode_of_decode h₂]
  · intro data₁ data₂ c h₁ h₂
    rw [← BatchCall.encode_of_decode h₁, BatchCall.encode_of_decode h₂]

/-- A call for the first slot of a contract. -/
def slotCall : SingleCall :=
  ⟨.zero, [⟨0 :: 0 :: List.replicate 30 0xff, rfl⟩], [List.replicate 32 0]⟩

/-- A call for several targets that names one. -/
def slotCalls : BatchCall :=
  ⟨[⟨slotCall.target, slotCall.commands, slotCall.constants, 0⟩]⟩

theorem answer_exact_simulated :
    ((SimulatedChain.gateway {}).answer slotCall.encode = (do
      let proof ← (SimulatedChain.gateway {}).prove .zero slotCall.commands slotCall.constants
      pure (SingleCall.encodeReturn proof))) ∧
    ((SimulatedChain.gateway {}).answer slotCalls.encode = (do
      let proofs ← (SimulatedChain.gateway {}).proveAll slotCalls.requests
      pure (BatchCall.encodeReturn proofs))) ∧
    (Cli.perform (fun _ => .ok "") {} (.calldata slotCall.target slotCall.commands
      slotCall.constants)).stdout = Hex.ofBytes slotCall.encode ++ "\n" ∧
    SingleCall.decodeReturn (SingleCall.encodeReturn [1, 2]) = .ok [1, 2] ∧
    (SimulatedChain.gateway {}).answer [1, 2] = throw (.unknownSelector [1, 2]) ∧
    ∃ cause, (SimulatedChain.gateway {}).answer SingleCall.selector = throw (.abi cause) := by
  obtain ⟨hsingle, hprinted, hreturn, hbatch, -, hshort, -, hrefused, -⟩ :=
    answer_exact (SimulatedChain.gateway {})
  have hlsingle : slotCall.encode.length < 2 ^ 63 := by
    rw [SingleCall.encode, List.length_append, SingleCall.length_selector]
    decide +kernel
  have hlbatch : slotCalls.encode.length < 2 ^ 63 := by
    rw [BatchCall.encode, List.length_append, BatchCall.length_selector]
    decide +kernel
  have hcount : slotCall.commands.length ≤ ({} : Config).maxCommands := by decide
  refine ⟨hsingle _ _ _ hlsingle, hbatch _ hlbatch,
    congrArg Cli.Outcome.stdout (hprinted _ _ _ _ hcount), hreturn [1, 2] (by decide +kernel),
    hshort [1, 2] (by decide),
    hrefused _ (List.take_of_length_le (Nat.le_of_eq SingleCall.length_selector)) ?_⟩
  intro c hc
  have hlen := congrArg List.length hc
  rw [SingleCall.encode, List.length_append, Fields.encode, length_assemble] at hlen
  have hpos := SingleCall.lawful_fields.footprint_pos
  have hle := SingleCall.lawful_fields.footprint_le (c.target.toWord, c.commands, c.constants)
  omega

end Gateway

end StorageGateway
