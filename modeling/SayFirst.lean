import SayFirst.Lib.Text
import SayFirst.Spec.Policy
import SayFirst.Spec.Retrospective
import SayFirst.Lib.Heap
import SayFirst.Lib.DueIndex
import SayFirst.Lib.Run
import SayFirst.Proof.Rederive
import SayFirst.Spec.Approval
import SayFirst.Spec.ApprovalStore
import SayFirst.Lib.Json
import SayFirst.Spec.Ask
import SayFirst.Proof.ApprovalStore
import SayFirst.Proof.OneAllow
import SayFirst.Lib.Chain
import SayFirst.Lib.Interpreter
import SayFirst.Spec.ChainRecipe
import SayFirst.Spec.Evidence
import SayFirst.Spec.Recipes
import SayFirst.Spec.Export
import SayFirst.Proof.Recipes
import SayFirst.Proof.Export
import SayFirst.Lib.Sha256
import SayFirst.Lib.Reference
import SayFirst.Lib.Base64
import SayFirst.Proof.FirstFault
import SayFirst.Proof.Verdict
import SayFirst.Proof.Served
import SayFirst.Proof.Redecide
import SayFirst.Proof.Agree
import SayFirst.Proof.Preimage
import SayFirst.Proof.Rearranged
import SayFirst.Lib.JsonRead
import SayFirst.Proof.Groups
import SayFirst.Proof.Protection
import SayFirst.Lib.JsonSchema
import SayFirst.Spec.PublishedSchema
import SayFirst.Proof.Grammar
import SayFirst.Lib.Pattern
import SayFirst.Proof.Recordable
import SayFirst.Spec.Emitter
import SayFirst.Proof.Emitter
import SayFirst.Proof.CleanStop
import SayFirst.Proof.GradeKept
import SayFirst.Proof.NoDangling
import SayFirst.Proof.LiveWait
import SayFirst.Spec.Grants
import SayFirst.Proof.GrantRecord
import SayFirst.Proof.GrantSignals
import SayFirst.Lib.Tally
import SayFirst.Lib.Triple
import SayFirst.Lib.JsonEq
import SayFirst.Lib.Slices
import SayFirst.Lib.JsonSize
import SayFirst.Spec.EvidenceStore
import SayFirst.Spec.EntryDocument
import SayFirst.Proof.EvidenceStore
import SayFirst.Spec.GrantAsk
import SayFirst.Spec.PolicyService
import SayFirst.Proof.PolicyOrder
import SayFirst.Spec.DecisionService
import SayFirst.Proof.GrantPolicy
import SayFirst.Proof.GrantCapacity
import SayFirst.Spec.Connection
import SayFirst.Proof.Connection
import SayFirst.Lib.Raises
import SayFirst.Lib.Lines
import SayFirst.Lib.JsonRound
import SayFirst.Lib.JsonArranged
import SayFirst.Lib.Utf8
import SayFirst.Spec.Problems
import SayFirst.Spec.Readers
import SayFirst.Spec.WhoAmI
import SayFirst.Spec.SocketClient
import SayFirst.Spec.VerifiedConnection
import SayFirst.Proof.Readers
import SayFirst.Proof.ClientTotal
import SayFirst.Proof.ClientsAlike
import SayFirst.Spec.Journal
import SayFirst.Proof.Journal
import SayFirst.Spec.DecisionFile
import SayFirst.Proof.FencedScope
import SayFirst.Spec.Recovery
import SayFirst.Spec.EvidenceReads
import SayFirst.Spec.Lives
import SayFirst.Proof.Recovery
import SayFirst.Proof.Lives
import SayFirst.Proof.EntryDocument
import SayFirst.Spec.EvidenceFile
import SayFirst.Proof.TornTail
import SayFirst.Proof.LatestSequence
import SayFirst.Spec.Boundary
import SayFirst.Proof.Boundary
import SayFirst.Spec.ApprovalSeam
import SayFirst.Proof.ApprovalSeam
import SayFirst.Proof.Sweeps
import SayFirst.Lib.Running
import SayFirst.Proof.Paging
import SayFirst.Proof.EndedGrant
import SayFirst.Spec.OutcomeLog
import SayFirst.Proof.OutcomeLog
import SayFirst.Spec.StoreSections
import SayFirst.Proof.NoOrphan
import SayFirst.Spec.PolicyArchive
import SayFirst.Proof.PolicyArchive
import SayFirst.Spec.PathResolution
import SayFirst.Proof.NamingChains
import SayFirst.Lib.PosixTree
import SayFirst.Proof.CannotWrite
import SayFirst.Spec.DelegationMember
import SayFirst.Proof.DelegationMember
import SayFirst.Lib.Chunked
import SayFirst.Spec.Framing
import SayFirst.Proof.Framing
import SayFirst.Lib.Committed
import SayFirst.Proof.Checkpoint
import SayFirst.Spec.Acts
import SayFirst.Proof.Acts
import SayFirst.Proof.EmitterOrder
import SayFirst.Lib.Simulation
import SayFirst.Spec.EvidenceMemory
import SayFirst.Proof.EvidenceMemory
import SayFirst.Spec.Deployment
import SayFirst.Proof.Answers
import SayFirst.Proof.Identities
import SayFirst.Proof.Deployment
import SayFirst.Lib.Percent
import SayFirst.Lib.Template
import SayFirst.Spec.RequestTarget
import SayFirst.Proof.RequestTarget
import SayFirst.Proof.DirectoryProtection
