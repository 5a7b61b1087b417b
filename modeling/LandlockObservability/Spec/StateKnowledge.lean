import LandlockObservability.Spec.SampleAccounting

/-!
# What arrives when samples are lost

The kernel submits a record for every event, and the consumer of the collector applies what
it receives to a `State`.  The channel in between may be full.

* `accepted_sublist`, `receivedEvents_sublist`: what arrives is a part of what was submitted
-/

namespace Landlock

open scoped List

namespace System

variable {en : Endian} {s : System} {os : List Observation}

/-- The events that the receive calls returned. -/
def receivedEvents (os : List Observation) : List Event :=
  os.filterMap fun
    | .returned _ (.ok event) => some event
    | _ => none

/-- The accepted deliveries come from samples, in their order. -/
theorem accepted_sublist {settled : List (List UInt8)}
    (h : List.Forall₂ (Settles en) settled (outcomes os)) :
    acceptedDeliveries os <+ settled.map (deliveryOf en) := by
  induction os generalizing settled with
  | nil => exact List.nil_sublist _
  | cons o os ih =>
    cases o with
    | accepted delivery =>
      cases h with
      | cons hsettles hrest =>
        rcases hsettles with hnone | hsome
        · cases hnone
        · cases hsome
          exact (ih hrest).cons_cons _
    -- An omitted sample is skipped
    | omitted =>
      cases h with
      | cons _ hrest => exact (ih hrest).cons _
    | returned origin result => exact ih h
    | nothing call => exact ih h

/-- Events come from the delivery channel. -/
private theorem receivedEvents_eq
    (herror : ∀ result, .returned .terminal result ∈ os → ∃ error, result = .error error) :
    receivedEvents os = (deliveredResults os).filterMap Except.toOption := by
  induction os with
  | nil => rfl
  | cons o os ih =>
    have hrest := ih fun result hmem => herror result (List.mem_cons_of_mem _ hmem)
    cases o with
    | returned origin result =>
      cases origin with
      | deliveries =>
        cases result with
        | ok event => exact congrArg (event :: ·) hrest
        | error error => exact hrest
      | terminal =>
        -- The terminal channel has errors only
        obtain ⟨error, rfl⟩ := herror result List.mem_cons_self
        exact hrest
    | _ => exact hrest

/-- An event is a sample's result. -/
private theorem filterMap_isSample (results : List Delivery) :
    (results.filter Delivery.isSample).filterMap Except.toOption =
      results.filterMap Except.toOption := by
  induction results with
  | nil => rfl
  | cons result results ih =>
    cases result with
    | ok event => exact congrArg (event :: ·) ih
    | error error =>
      by_cases hsample : Delivery.isSample (.error error) = true
      · rw [List.filter_cons_of_pos hsample]
        exact ih
      · rw [List.filter_cons_of_neg hsample]
        exact ih

/-- The events that the samples decode to. -/
def decodedEvents (en : Endian) (actions : List Action) : List Event :=
  (samples actions).filterMap fun data => (Wire.decode en data).toOption

/-- The events among the decoded samples. -/
theorem filterMap_deliveryOf (en : Endian) (actions : List Action) :
    ((samples actions).map (deliveryOf en)).filterMap Except.toOption =
      decodedEvents en actions := by
  rw [List.filterMap_map, decodedEvents]
  refine List.filterMap_congr fun data _ => ?_
  rw [Function.comp_apply, deliveryOf]
  cases Wire.decode en data <;> rfl

/-- The samples of submitted events decode to these events. -/
theorem decodedEvents_of_encode {actions : List Action} {events : List Event}
    (hsamples : samples actions = events.map (Producer.encode en)) :
    decodedEvents en actions = events := by
  have hok : ((fun data => (Wire.decode en data).toOption) ∘ Producer.encode en) = some := by
    funext event
    show (Wire.decode en (Producer.encode en event)).toOption = some event
    rw [Producer.decode_encode]
    rfl
  rw [decodedEvents, hsamples, List.filterMap_map, hok, List.filterMap_some]

/-- What is received are some of the events of the samples. -/
theorem receivedEvents_sublist {eventCapacity : ℕ+} {actions : List Action}
    (hrun : run en eventCapacity actions = some (s, os)) :
    receivedEvents os <+ decodedEvents en actions := by
  obtain ⟨settled, held, haccount, hsettled, -⟩ := run_accounts hrun
  -- What was received is a first part of what was accepted
  have hreceived : (deliveredResults os).filter Delivery.isSample <+: acceptedDeliveries os :=
    delivered_prefix_accepted hrun
  -- And what was accepted comes from the submitted records
  have haccepted : acceptedDeliveries os <+ (samples actions).map (deliveryOf en) := by
    rw [haccount, List.map_append]
    exact (accepted_sublist hsettled).trans (List.sublist_append_left _ _)
  calc receivedEvents os
      = ((deliveredResults os).filter Delivery.isSample).filterMap Except.toOption := by
        rw [filterMap_isSample]
        exact receivedEvents_eq fun _ hmem => terminal_error_of_run hrun hmem
    _ <+ (acceptedDeliveries os).filterMap Except.toOption := hreceived.sublist.filterMap _
    _ <+ ((samples actions).map (deliveryOf en)).filterMap Except.toOption := haccepted.filterMap _
    _ = decodedEvents en actions := filterMap_deliveryOf en actions

end System

end Landlock
