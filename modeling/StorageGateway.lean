import StorageGateway.Main
import StorageGateway.Proofs.BigEndian
import StorageGateway.Proofs.Reads
import StorageGateway.Rpc.Services
import StorageGateway.Simulated.Chain
import StorageGateway.Simulated.Node
import StorageGateway.Proofs.LengthWord
import StorageGateway.Proofs.Replay
import StorageGateway.Proofs.Recording
import StorageGateway.Proofs.Rlp
import StorageGateway.Proofs.Abi
import StorageGateway.Proofs.Simulated
import StorageGateway.Proofs.Layout
import StorageGateway.Proofs.Failures
import StorageGateway.Proofs.Finality
import StorageGateway.Proofs.RlpExact
import StorageGateway.Proofs.BlockHeader
import StorageGateway.Proofs.Packed
import StorageGateway.Proofs.JoinedNodes
import StorageGateway.Proofs.Witness
import StorageGateway.Proofs.Decoding
import StorageGateway.Proofs.Truncation
import StorageGateway.Proofs.Calls
import StorageGateway.Proofs.ProvenWords
import StorageGateway.Proofs.Batch
import StorageGateway.Proofs.Hexadecimal
import StorageGateway.Proofs.JsonRecords
import StorageGateway.Proofs.JsonForms
import StorageGateway.Proofs.Injectivity
import StorageGateway.Proofs.Resolution
import StorageGateway.Proofs.Node
import StorageGateway.Proofs.NodeHistory
import StorageGateway.Proofs.ParentOfLatest
import StorageGateway.Simulated.Change
import StorageGateway.Proofs.Compositional
import StorageGateway.Proofs.Effects
import StorageGateway.Proofs.DynamicStorage
import StorageGateway.Proofs.References
import StorageGateway.Proofs.Accessor
import StorageGateway.Proofs.Triage
import StorageGateway.Proofs.Work
import StorageGateway.Proofs.OfflineSlots
import StorageGateway.Proofs.ValueBytes
import StorageGateway.Proofs.KeyPath
import StorageGateway.Proofs.KeyBinding
import StorageGateway.Proofs.Commitments
import StorageGateway.Proofs.Prefixes
import StorageGateway.Proofs.Window
