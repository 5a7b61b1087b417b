import LandlockObservability.ForStd.Finmap
import LandlockObservability.ForStd.Fold
import LandlockObservability.ForStd.Register
import LandlockObservability.Model.CapturedBytes
import LandlockObservability.Model.Event
import LandlockObservability.Model.State
import LandlockObservability.Spec.StateEffects
import LandlockObservability.Spec.StateExchange
import LandlockObservability.Spec.StateConvergence
import LandlockObservability.Spec.StateOrder
import LandlockObservability.Spec.StateIntegrity
import LandlockObservability.ForStd.Bytes
import LandlockObservability.ForStd.Layout
import LandlockObservability.Model.Wire
import LandlockObservability.ForStd.Except
import LandlockObservability.Spec.WireFields
import LandlockObservability.Spec.WireValidity
import LandlockObservability.Model.Producer
import LandlockObservability.Spec.WireRoundtrip
import LandlockObservability.ForStd.Recency
import LandlockObservability.Model.Aggregate
import LandlockObservability.Spec.AggregateRefines
import LandlockObservability.ForStd.Channel
import LandlockObservability.ForStd.Machine
import LandlockObservability.Model.Collector
import LandlockObservability.ForStd.LossyQueue
import LandlockObservability.Spec.CollectorDelivery
import LandlockObservability.Spec.CollectorOrder
import LandlockObservability.ForStd.Hoare
import LandlockObservability.Model.Privilege
import LandlockObservability.Spec.PrivilegeSafety
import LandlockObservability.ForStd.Numeral
import LandlockObservability.Model.AccessNames
import LandlockObservability.Model.Batch
import LandlockObservability.ForStd.ChangeLog
import LandlockObservability.ForStd.List
import LandlockObservability.Spec.BatchMirror
import LandlockObservability.Spec.StateSummary
import LandlockObservability.Spec.DomainSummary
import LandlockObservability.Spec.RulesetSummary
import LandlockObservability.Model.Observation
import LandlockObservability.Spec.FrontEnds
import LandlockObservability.Spec.StateTimes
import LandlockObservability.Spec.ObservationConsistency
import LandlockObservability.Model.PathHandlers
import LandlockObservability.Spec.PathCapture
import LandlockObservability.Model.PrivilegeLog
import LandlockObservability.Spec.PrivilegeAttempts
import LandlockObservability.Spec.TerminalReports
import LandlockObservability.ForStd.Line
import LandlockObservability.Spec.BatchTexts
import LandlockObservability.Spec.LineProtocol
import LandlockObservability.ForStd.Utf8
import LandlockObservability.Model.Display
import LandlockObservability.Model.Labels
import LandlockObservability.Spec.DisplayText
import LandlockObservability.ForStd.Mask
import LandlockObservability.Spec.BlockerLabels
import LandlockObservability.Model.SocketHandlers
import LandlockObservability.Spec.SocketRecords
import LandlockObservability.ForStd.Grouping
import LandlockObservability.ForStd.TreeWalk
import LandlockObservability.Model.DomainTree
import LandlockObservability.Spec.DomainTree
import LandlockObservability.Model.Rows
import LandlockObservability.Spec.DenialOrder
import LandlockObservability.Model.Navigation
import LandlockObservability.ForStd.Cursor
import LandlockObservability.Spec.ListItems
import LandlockObservability.Spec.Navigation
import LandlockObservability.ForStd.Loop
import LandlockObservability.Model.Drain
import LandlockObservability.Spec.DrainLoop
import LandlockObservability.Model.Generator
import LandlockObservability.ForStd.Items
import LandlockObservability.Spec.GeneratorText
import LandlockObservability.Spec.Generator
import LandlockObservability.Spec.LineWidth
import LandlockObservability.Spec.CollectorShutdown
import LandlockObservability.Spec.SampleAccounting
import LandlockObservability.Spec.StateKnowledge
import LandlockObservability.Model.Details
import LandlockObservability.Spec.Details
import LandlockObservability.Model.Session
import LandlockObservability.Spec.HitMap
import LandlockObservability.Spec.Session
import LandlockObservability.ForStd.Output
import LandlockObservability.Model.Program
import LandlockObservability.Spec.BatchOutput
import LandlockObservability.Spec.Program
import LandlockObservability.ForStd.ObjectStore
import LandlockObservability.ForStd.Timeline
import LandlockObservability.Spec.Objects
import LandlockObservability.Spec.Reconstruction
import LandlockObservability.Spec.Losses
import LandlockObservability.Model.Tracepoints
import LandlockObservability.Spec.Tracepoints
import LandlockObservability.Model.Preparation
import LandlockObservability.Spec.Preparation
import LandlockObservability.Spec.Status
import LandlockObservability.Spec.GeneratorCheck
import LandlockObservability.Spec.Losses
