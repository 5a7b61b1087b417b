import LandlockObservability.Model.Batch

/-!
# The model of the interactive mode

Models `lltop/src/tui/model.rs`: the reconstructed state and the denial aggregation
beside the counters and the latest timestamp that the views show.  Unlike batch mode it
keeps no counter of allocated domains and counts them when asked.  `domain_tree` is not
part of this file.
-/

namespace Landlock

namespace ObservationModel

/-- `Stats`; the positions of the array `by_kind` are named by their kind. -/
structure Stats where
  total : UInt64
  byKind : DenialKind → UInt64

/-- `Stats::default`. -/
def Stats.zero : Stats := ⟨0, fun _ => 0⟩

end ObservationModel

/-- `ObservationModel`. -/
structure ObservationModel where
  state : State
  denials : DenialAggregator
  stats : ObservationModel.Stats
  latestSeen : KernelTimestamp

namespace ObservationModel

def new : ObservationModel := ⟨.new, .new, .zero, ⟨0⟩⟩

/-- The counter that `observe` picks for an event. -/
def countOf : Event → Option DenialKind
  | .denyAccessFs _ => some .fs
  | .denyAccessNet _ => some .net
  | .denyPtrace _ => some .ptrace
  | .denyScopeSignal _ => some .signal
  | .denyScopeAbstractUnixSocket _ => some .abstractUnix
  | _ => none

/-- `ObservationModel::observe`. -/
def observe (order : IterOrder DenialKey AggregatedDenial) (model : ObservationModel)
    (event : Event) : ObservationModel where
  latestSeen := ⟨max model.latestSeen.nanoseconds event.timestamp.nanoseconds⟩
  -- The counters count denials, also of keys that are evicted later
  stats :=
    match countOf event with
    | some kind =>
      { total := saturatingCount model.stats.total
        byKind := Function.update model.stats.byKind kind
          (saturatingCount (model.stats.byKind kind)) }
    | none => model.stats
  state := model.state.apply event
  denials := model.denials.observe order event

/-- A sequence of events from `ObservationModel::new`.  The traversal order of the
    aggregation may be another one each time. -/
def observeAll (steps : List (IterOrder DenialKey AggregatedDenial × Event)) :
    ObservationModel :=
  steps.foldl (fun model step => model.observe step.1 step.2) new

/-- `allocated_domains`. -/
def allocatedDomains (model : ObservationModel) : Nat :=
  model.state.domains.entries.countP fun entry => entry.2.lifecycle = .allocated

/-- `allocated_rulesets`. -/
def allocatedRulesets (model : ObservationModel) : Nat :=
  model.state.rulesets.entries.countP fun entry => entry.2.lifecycle = .allocated

/-- `denial_age_ns`, with the saturating subtraction of the source. -/
def denialAgeNs (model : ObservationModel) (denial : AggregatedDenial) : UInt64 :=
  if denial.latestTimestamp.nanoseconds ≤ model.latestSeen.nanoseconds then
    model.latestSeen.nanoseconds - denial.latestTimestamp.nanoseconds
  else
    0

/-- `ObservationModel::denial`. -/
def denial (model : ObservationModel) (key : DenialKey) : Option AggregatedDenial :=
  model.denials.entries.lookup key

end ObservationModel

end Landlock
