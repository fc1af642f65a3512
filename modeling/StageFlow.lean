import StageFlow.Main
import StageFlow.Proofs.Dataflow
import StageFlow.Proofs.Dispatch
import StageFlow.Proofs.Failure
import StageFlow.Simulation
import StageFlow.Proofs.Rounds
import StageFlow.Proofs.Replay
import StageFlow.Proofs.Recovery
import StageFlow.Proofs.Bindings
import StageFlow.Proofs.OneSided
import StageFlow.Proofs.Determinacy
import StageFlow.Proofs.StageOrder
import StageFlow.Proofs.EarlyStop
import StageFlow.Proofs.KeyedList
import StageFlow.Proofs.Registration
import StageFlow.Proofs.Progress
import StageFlow.Proofs.Safety
import StageFlow.Proofs.Relevance
import StageFlow.Proofs.SingleNode
import StageFlow.Proofs.Report
import StageFlow.Proofs.PlanDocument
import StageFlow.Proofs.PlanYaml
import StageFlow.Proofs.Statistics
import StageFlow.Proofs.Clearing
import StageFlow.Proofs.Quiescence
import StageFlow.Proofs.Lifecycle
import StageFlow.Proofs.Occurrences
import StageFlow.Proofs.KeyedDocument
import StageFlow.Proofs.GraphDocument
import StageFlow.Proofs.ErrorObjects
import StageFlow.Proofs.FileNames
import StageFlow.Proofs.StoredResults
