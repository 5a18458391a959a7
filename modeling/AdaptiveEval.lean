import AdaptiveEval.BooleanNetwork.Rule
import AdaptiveEval.BooleanNetwork.Search
import AdaptiveEval.Host
import AdaptiveEval.SampleGraphs
import AdaptiveEval.Value.Families
import AdaptiveEval.Proofs.Chain.Entries
import AdaptiveEval.Proofs.NameFreshness
import AdaptiveEval.Proofs.Chain.Ledger
import AdaptiveEval.Proofs.ConcurrentResolve
import AdaptiveEval.Proofs.Reference.Evaluator
import AdaptiveEval.Proofs.Reference.Session
import AdaptiveEval.Proofs.Reference.Simulation
import AdaptiveEval.Proofs.Transparency
import AdaptiveEval.Proofs.Chain.SharedHeads
import AdaptiveEval.Proofs.TargetChanges
import AdaptiveEval.Proofs.Tiers
import AdaptiveEval.Proofs.NodeSites
import AdaptiveEval.Proofs.Specialization.Trace
import AdaptiveEval.Proofs.Composition
import AdaptiveEval.Proofs.Specialization.Decisions
import AdaptiveEval.Proofs.Specialization.Moments
import AdaptiveEval.Proofs.Specialization.Generation
import AdaptiveEval.Proofs.Convergence
import AdaptiveEval.Proofs.Levels
import AdaptiveEval.Proofs.LoopSplitting
import AdaptiveEval.Proofs.TargetOptions
import AdaptiveEval.Proofs.DepthLimit
import AdaptiveEval.Proofs.HandOver
import AdaptiveEval.Proofs.TransitionGraph
import AdaptiveEval.Proofs.Reachability
import AdaptiveEval.Proofs.Frames.Contents
import AdaptiveEval.Proofs.Frames.Kinds
import AdaptiveEval.Proofs.ArithmeticRecords
import AdaptiveEval.Proofs.ElementDispatch
import AdaptiveEval.Proofs.Chain.FirstKeys
import AdaptiveEval.Proofs.Megamorphism
import AdaptiveEval.Proofs.NameHits
import AdaptiveEval.Proofs.Chain.Partition
import AdaptiveEval.Proofs.CacheUse
import AdaptiveEval.Proofs.CacheStorage
import AdaptiveEval.Proofs.Reference.Meaning
import AdaptiveEval.Proofs.Reference.Invocation
import AdaptiveEval.Proofs.ScaledSum
import AdaptiveEval.Proofs.NumericTower
import AdaptiveEval.Proofs.ProgressionSum
import AdaptiveEval.Proofs.LoopTally
import AdaptiveEval.Proofs.CountingLoop
