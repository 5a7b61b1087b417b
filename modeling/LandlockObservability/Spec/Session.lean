import LandlockObservability.Model.Session
import LandlockObservability.Spec.DrainLoop
import LandlockObservability.Spec.HitMap
import LandlockObservability.Spec.Navigation
import LandlockObservability.Spec.StateOrder

/-!
# Whole interactive sessions

Whatever the user does with the keys and the mouse, and whatever arrives from the collector in
between, the selection is an item of the tab that is shown, and what it stands for is still
there: the state never forgets a domain or a ruleset.  Only a denial can be gone, because the
aggregation of denials is bounded.

The handlers work with the rows of the last drawing, which may be older than the tab.  This is
no danger, because every iteration draws before it looks at the terminal.

* `items_tabRows_cases`: what can be selected in a tab
* `Selects.handle`: every event of the terminal leaves an item selected, or nothing
* `step_sessionInv`: what an iteration keeps
* `session_safe`: what holds of every run
-/

namespace Landlock.Tui

/-! ## Items -/

/-- The tab that shows an item. -/
def RowKind.tab? : RowKind → Option Tab
  | domain _ => some .domains
  | denialDomain _ => some .denials
  | denial _ => some .denials
  | ruleset _ => some .rulesets
  | heading => none

/-- What an item stands for is part of the state; denials may be evicted. -/
def RowKind.Kept (model : ObservationModel) : RowKind → Prop
  | domain id => id ∈ model.state.domains
  | denialDomain id => id ∈ model.state.domains
  | ruleset id => id ∈ model.state.rulesets
  | _ => True

/-- An item of a tab. -/
structure IsItem (model : ObservationModel) (tab : Tab) (kind : RowKind) : Prop where
  tab : kind.tab? = some tab
  kept : kind.Kept model

section Items

variable {u : Unicode} {w : Format.DisplayWidth} {orders : ModelOrders}
  {steps : List (IterOrder DenialKey AggregatedDenial × Event)}

/-- The domain of a retained denial is part of the state. -/
private theorem domain_of_retained {order : IterOrder DenialKey AggregatedDenial}
    {entry : AggregatedDenial}
    (h : entry ∈ retained order (ObservationModel.observeAll steps)) :
    entry.key.domainId ∈ (ObservationModel.observeAll steps).state.domains := by
  obtain ⟨p, hp, rfl⟩ := List.mem_map.mp h
  obtain ⟨context, domain, count, -, -, hdomain, -⟩ :=
    ObservationModel.knowsDomain steps (order.mem_toList.mp hp)
  exact Finmap.mem_iff.mpr ⟨domain, hdomain⟩

/-- The rows of a tab are its items and headings. -/
theorem items_tabRows_cases {redraw : Redraw} {tab : Tab} {selected : Option RowKind}
    {kind : RowKind}
    (h : kind ∈ kinds
      (tabRows u w orders (ObservationModel.observeAll steps) redraw tab selected)) :
    kind = .heading ∨ IsItem (ObservationModel.observeAll steps) tab kind := by
  obtain ⟨row, hrow, rfl⟩ := List.mem_map.mp h
  cases tab with
  | domains =>
    obtain ⟨entry, -, hentry⟩ := List.mem_filterMap.mp hrow
    obtain ⟨domain, hdomain, rfl⟩ := Option.map_eq_some_iff.mp hentry
    exact .inr ⟨rfl, Finmap.mem_iff.mpr ⟨domain, hdomain⟩⟩
  | denials =>
    rcases mem_foldl_sections hrow with hnil | rfl | ⟨group, hgroup, hrow⟩
    · exact absurd hnil List.not_mem_nil
    · exact .inl rfl
    · rcases List.mem_cons.mp hrow with rfl | hrow
      · -- the domain of a section has a denial
        obtain ⟨⟨entry, hentry, hkey⟩, -⟩ := Grouping.mem_groups.mp (Grouping.mem_sortBy.mp hgroup)
        refine .inr ⟨rfl, ?_⟩
        show group.1 ∈ _
        rw [← hkey]
        exact domain_of_retained hentry
      · -- below it stand headings for what was blocked, and the denials
        obtain ⟨labelled, -, hrow⟩ := List.mem_flatMap.mp hrow
        rcases List.mem_cons.mp hrow with rfl | hrow
        · exact .inl rfl
        · obtain ⟨entry, -, rfl⟩ := List.mem_map.mp hrow
          exact .inr ⟨rfl, trivial⟩
  | rulesets =>
    obtain ⟨ruleset, hruleset, rfl⟩ := List.mem_map.mp hrow
    obtain ⟨p, hp, rfl⟩ := List.mem_map.mp (Grouping.mem_sortBy.mp hruleset)
    have hlookup := orders.rulesets.mem_toList.mp hp
    -- The row is made from the id in the record, which is the key of the record
    have hid := ((ObservationModel.observeAll_integrity steps).rulesets _ _ hlookup).id_eq
    refine .inr ⟨rfl, ?_⟩
    show p.2.id ∈ _
    rw [hid]
    exact Finmap.mem_iff.mpr ⟨p.2, hlookup⟩
  | stats => exact absurd hrow List.not_mem_nil

end Items

/-- Items stay items when the model goes on. -/
theorem IsItem.observe {model : ObservationModel} {tab : Tab} {kind : RowKind}
    (h : IsItem model tab kind) (order : IterOrder DenialKey AggregatedDenial) (event : Event) :
    IsItem (model.observe order event) tab kind := by
  -- No event removes a record
  obtain ⟨hrulesets, hdomains⟩ := State.le_apply model.state event
  refine ⟨h.tab, ?_⟩
  have hkept := h.kept
  cases kind with
  | domain id =>
    obtain ⟨domain, hdomain⟩ := Finmap.mem_iff.mp hkept
    obtain ⟨domain', hdomain', -⟩ := hdomains id domain hdomain
    exact Finmap.mem_iff.mpr ⟨domain', hdomain'⟩
  | denialDomain id =>
    obtain ⟨domain, hdomain⟩ := Finmap.mem_iff.mp hkept
    obtain ⟨domain', hdomain', -⟩ := hdomains id domain hdomain
    exact Finmap.mem_iff.mpr ⟨domain', hdomain'⟩
  | ruleset id =>
    obtain ⟨ruleset, hruleset⟩ := Finmap.mem_iff.mp hkept
    obtain ⟨ruleset', hruleset', -⟩ := hrulesets id ruleset hruleset
    exact Finmap.mem_iff.mpr ⟨ruleset', hruleset'⟩
  | denial key => trivial
  | heading => trivial

/-! ## Handlers -/

/-- The selection is an item of the tab, and details are shown of a selection only. -/
structure Selects (model : ObservationModel) (app : App) : Prop where
  item : ∀ kind, app.selected = some kind → IsItem model app.tab kind
  detail : app.detail = true → app.selected.isSome = true

/-- The rows of the hit map belong to the tab. -/
def Lists (model : ObservationModel) (app : App) : Prop :=
  ∀ kind ∈ app.rows, kind = .heading ∨ IsItem model app.tab kind

section Handlers

variable {model : ObservationModel} {app : App} {ui : Ui}

/-- Selecting a row that is no heading. -/
theorem Selects.select {kind : RowKind} (hrows : Lists model app) (hmem : kind ∈ app.rows)
    (hkind : kind ≠ .heading) :
    Selects model { app with selected := some kind, detail := true } where
  item := fun kind' h => by
    cases h
    exact (hrows kind hmem).resolve_left hkind
  detail := fun _ => rfl

/-- Another tab starts without a selection. -/
theorem Selects.setTab (tab : Tab) : Selects model (app.setTab tab) where
  item := fun _ h => by cases h
  detail := fun h => by cases h

/-- What the keys choose from are rows that can be selected. -/
private theorem mem_selectable {rows : List RowKind} {entry : Nat × RowKind}
    (h : entry ∈ App.selectable rows) : entry.2 ∈ rows ∧ entry.2 ≠ .heading := by
  -- The rows that were found so far, line by line
  refine List.foldlRecOn (motive := fun found => ∀ entry ∈ found, entry.2 ∈ rows ∧
    entry.2 ≠ .heading) rows.zipIdx _ (fun _ hnil => absurd hnil List.not_mem_nil) ?_ entry h
  intro found hfound ⟨row, index⟩ hline entry hentry
  dsimp only at hentry
  split at hentry
  · rename_i hselectable
    rcases List.mem_append.mp hentry with hold | hnew
    · exact hfound entry hold
    · rw [List.mem_singleton.mp hnew]
      refine ⟨List.fst_mem_of_mem_zipIdx hline, fun hheading => ?_⟩
      have hrow : row = .heading := hheading
      rw [hrow] at hselectable
      cases hselectable
  · exact hfound entry hentry

/-- The keys move the selection to another row that can be selected. -/
theorem Selects.moveSelection (h : Selects model app) (hrows : Lists model app) (delta : Int) :
    Selects model (app.moveSelection delta) := by
  simp only [App.moveSelection]
  split
  · exact ⟨h.item, h.detail⟩
  · split
    · rename_i index row hrow
      obtain ⟨hmem, hkind⟩ := mem_selectable (List.mem_of_getElem? hrow)
      exact ⟨(Selects.select hrows hmem hkind).item, fun _ => rfl⟩
    · exact ⟨h.item, h.detail⟩

/-- The ruleset that is followed is part of the state. -/
theorem Selects.followDomain (h : Selects model ui.toApp) (hmodel : model.state.Integrity) :
    Selects model (ui.followDomain model).toApp := by
  simp only [Ui.followDomain]
  split
  · exact h
  · rename_i ruleset hfollowed
    obtain ⟨domain, hdomain, hruleset⟩ := Option.bind_eq_some_iff.mp hfollowed
    obtain ⟨id, -, hlookup⟩ := Option.bind_eq_some_iff.mp hdomain
    obtain ⟨version, hversion, rfl⟩ := Option.map_eq_some_iff.mp hruleset
    -- A domain refers to rulesets with a record only
    obtain ⟨state, hstate, -⟩ := hmodel.references id domain version hlookup hversion
    refine ⟨fun kind hkind => ?_, fun _ => rfl⟩
    cases hkind
    exact ⟨rfl, Finmap.mem_iff.mpr ⟨state, hstate⟩⟩

/-- A click selects a row of the hit map. -/
theorem Selects.clickRow (h : Selects model ui.toApp) (hrows : Lists model ui.toApp)
    (column row : UInt16) : Selects model (ui.clickRow column row).toApp := by
  simp only [Ui.clickRow]
  split
  · rename_i kind hclicked
    obtain ⟨hfound, hkind⟩ := Option.filter_eq_some_iff.mp hclicked
    obtain ⟨index, -, hindex⟩ := Option.bind_eq_some_iff.mp hfound
    exact Selects.select hrows (List.mem_of_getElem? hindex) (of_decide_eq_true hkind)
  · exact h

/-- Dragging leaves the selection alone. -/
theorem Selects.dragScrollbar (h : Selects model ui.toApp) (row : UInt16) :
    Selects model (ui.dragScrollbar row).toApp := by
  simp only [Ui.dragScrollbar]
  split
  all_goals exact ⟨h.item, h.detail⟩

/-- Every key leaves an item selected, or nothing. -/
theorem Selects.handleKey {code : KeyCode} {ui' : Ui} (h : Selects model ui.toApp)
    (hrows : Lists model ui.toApp) (hmodel : model.state.Integrity)
    (hkey : ui.handleKey model code = some ui') : Selects model ui'.toApp := by
  unfold Ui.handleKey at hkey
  split at hkey
  case h_2 =>
    -- `Esc` hides the details and keeps the selection
    split at hkey
    · cases hkey
      exact ⟨h.item, fun hdetail => by cases hdetail⟩
    · cases hkey
  all_goals first
    | cases hkey; done
    | cases hkey
      first
        | exact Selects.setTab _
        | exact h.moveSelection hrows _
        | exact h.followDomain hmodel
        | exact ⟨h.item, h.detail⟩

/-- So does the mouse. -/
theorem Selects.handleMouse (h : Selects model ui.toApp) (hrows : Lists model ui.toApp)
    (column row : UInt16) (kind : MouseEventKind) :
    Selects model (ui.handleMouse column row kind).toApp := by
  unfold Ui.handleMouse
  split
  case h_3 =>
    -- The left button: a tab, the scrollbar or a row
    unfold Ui.leftDown
    split
    · exact Selects.setTab _
    · split
      · exact @Selects.dragScrollbar model { ui with draggingScrollbar := true } h row
      · exact h.clickRow hrows column row
  case h_4 =>
    split
    · exact h.dragScrollbar row
    · exact h
  all_goals exact ⟨h.item, h.detail⟩

/-- Every event of the terminal leaves an item selected, or nothing. -/
theorem Selects.handle {event : TerminalEvent} {ui' : Ui} (h : Selects model ui.toApp)
    (hrows : Lists model ui.toApp) (hmodel : model.state.Integrity)
    (hhandle : ui.handle model event = some ui') : Selects model ui'.toApp := by
  unfold Ui.handle at hhandle
  split at hhandle
  · exact h.handleKey hrows hmodel hhandle
  · cases hhandle
    exact h.handleMouse hrows _ _ _
  · cases hhandle
    exact h

end Handlers

/-! ## Drawing -/

section Drawing

variable {u : Unicode} {w : Format.DisplayWidth} {ui : Ui} {frame : Frame}
  {steps : List (IterOrder DenialKey AggregatedDenial × Event)}

/-- Drawing keeps the selection. -/
private theorem selects_draw {model : ObservationModel} (h : Selects model ui.toApp) :
    Selects model (ui.draw u w model frame).1.toApp := by
  have hsame : (ui.draw u w model frame).1.tab = ui.tab ∧
      (ui.draw u w model frame).1.selected = ui.selected ∧
      (ui.draw u w model frame).1.detail = ui.detail := by
    simp only [Ui.draw, Tui.draw, drawList]
    split
    all_goals exact ⟨rfl, rfl, rfl⟩
  obtain ⟨htab, hselected, hdetail⟩ := hsame
  refine ⟨fun kind hkind => ?_, fun hdetailed => ?_⟩
  · rw [htab]
    exact h.item kind (hselected ▸ hkind)
  · rw [hselected]
    exact h.detail (hdetail ▸ hdetailed)

/-- The rows of the hit map belong to the tab that was drawn. -/
private theorem lists_draw :
    Lists (ObservationModel.observeAll steps)
      (ui.draw u w (ObservationModel.observeAll steps) frame).1.toApp := by
  intro kind hkind
  by_cases hstats : ui.tab = .stats
  · simp [Ui.draw, Tui.draw, hstats] at hkind
  · simp only [Ui.draw, Tui.draw, if_neg hstats] at hkind ⊢
    -- A row is drawn on lines of its own kind
    have hmem := (stretched_lines w _ _).mem_iff.mp hkind
    exact items_tabRows_cases hmem

end Drawing

/-! ## Collecting -/

/-- Events with the orders in which the aggregation is traversed, observed one by one. -/
def observeSteps (model : ObservationModel)
    (steps : List (IterOrder DenialKey AggregatedDenial × Event)) : ObservationModel :=
  steps.foldl (fun model step => model.observe step.1 step.2) model

/-- The two applications differ in the warning only. -/
def SameButWarning (app app' : App) : Prop :=
  app' = { app with collectorWarning := app'.collectorWarning }

/-- Nothing has changed. -/
theorem SameButWarning.refl (app : App) : SameButWarning app app :=
  rfl

/-- Two changes of the warning are one. -/
theorem SameButWarning.trans {app app' app'' : App} (h : SameButWarning app app')
    (h' : SameButWarning app' app'') : SameButWarning app app'' := by
  unfold SameButWarning at *
  rw [h', h]

/-- The warning has nothing to do with the selection. -/
theorem SameButWarning.selects {app app' : App} {model : ObservationModel}
    (h : SameButWarning app app') (hselects : Selects model app) : Selects model app' := by
  rw [h]
  exact ⟨hselects.item, hselects.detail⟩

section Collecting

variable {pollText : PollError → String}

/-- The events among the results of the first calls of `try_recv`. -/
def Iteration.drained (it : Iteration) (calls : Nat) :
    List (IterOrder DenialKey AggregatedDenial × Event) :=
  (List.range calls).filterMap fun i =>
    (it.receive i).toOption.map fun event => (it.drainOrders i, event)

/-- The drain loop observes the events among its results. -/
private theorem observeCalls_eq (it : Iteration) (model : ObservationModel) (calls : Nat) :
    observeCalls it.drainOrders it.receive model calls = observeSteps model (it.drained calls) := by
  induction calls with
  | zero => rfl
  | succ calls ih =>
    rw [observeCalls_succ, ih]
    cases hreceive : it.receive calls with
    | ok event =>
      simp [Iteration.drained, observeSteps, List.range_succ, hreceive, Except.toOption]
    | error error =>
      simp [Iteration.drained, observeSteps, List.range_succ, hreceive, Except.toOption]

/-- A round of the drain loop leaves the application alone, but for the warning. -/
private theorem drainReadyEvents_app {it : Iteration} {app : App} {model : ObservationModel}
    {drained : Drained}
    (h : drainReadyEvents pollText it.drainOrders it.receive app model it.rounds = some drained) :
    SameButWarning app drained.last.app ∧
      drained.last.model = observeSteps model (it.drained drained.last.calls) := by
  -- `s` is the state before the round that ends the loop
  obtain ⟨n, -, s, hafter, hround⟩ := Loop.exists_after_of_run h
  have happ : SameButWarning app s.app := by
    refine Loop.After.invariant (I := fun _ s => SameButWarning app s.app) ?_ hafter (.refl app)
    intro _ t t' ht hround
    have hspec := drainRound_spec pollText it.drainOrders it.receive t
    rw [hround] at hspec
    cases hspec with
    | observes _ _ => exact ht
    | warns _ _ _ => exact ht.trans rfl
  -- The last round ends the loop and observes nothing
  have hmodel := ((draining_of_after hafter).returned hround).2.2
  have hspec := drainRound_spec pollText it.drainOrders it.receive s
  rw [hround] at hspec
  refine ⟨?_, hmodel.trans (observeCalls_eq it model _)⟩
  cases hspec with
  | ends _ _ _ _ => exact happ
  | full _ => exact happ

/-- The event that the first receive call of an iteration returned. -/
def Iteration.firstEvent (it : Iteration) :
    List (IterOrder DenialKey AggregatedDenial × Event) :=
  (it.first.toOption.map fun event => (it.order, event)).toList

/-- The first receive call observes its event, if there is one. -/
private theorem collectFirst_eq_ok {it : Iteration} {app app' : App}
    {model model' : ObservationModel}
    (h : collectFirst pollText it.order app model it.first = .ok (app', model')) :
    SameButWarning app app' ∧ model' = observeSteps model it.firstEvent := by
  unfold collectFirst at h
  split at h
  · rename_i event hfirst
    cases h
    exact ⟨rfl, by simp [Iteration.firstEvent, hfirst, Except.toOption, observeSteps]⟩
  · rename_i hfirst
    cases h
    exact ⟨rfl, by simp [Iteration.firstEvent, hfirst, Except.toOption, observeSteps]⟩
  · -- a recoverable error is shown as the warning
    rename_i error _ hfirst
    simp only [handleCollectorError] at h
    split at h
    · cases h
      exact ⟨rfl, by simp [Iteration.firstEvent, hfirst, Except.toOption, observeSteps]⟩
    · cases h

/-- The events that the receive calls of an iteration returned, while it gets to its drawing. -/
def Session.received (pollText : PollError → String) (s : Session) (it : Iteration) :
    List (IterOrder DenialKey AggregatedDenial × Event) :=
  if s.ui.paused then []
  else
    match collectFirst pollText it.order s.ui.toApp s.model it.first with
    | .error _ => []
    | .ok (app, model) =>
      it.firstEvent ++
        (drainReadyEvents pollText it.drainOrders it.receive app model it.rounds).elim []
          fun drained => it.drained drained.last.calls

/-- Collecting observes the received events, and changes nothing else but the warning. -/
private theorem collect_eq_ok {s : Session} {it : Iteration} {app : App} {model : ObservationModel}
    (h : collect pollText it.drainOrders it.receive it.order s.ui.toApp s.model it.first
      it.rounds = some (.ok (app, model))) :
    SameButWarning s.ui.toApp app ∧ model = observeSteps s.model (s.received pollText it) := by
  unfold collect at h
  unfold Session.received
  split at h
  · rename_i hpaused
    cases h
    rw [if_pos hpaused]
    exact ⟨rfl, rfl⟩
  · rename_i hrunning
    rw [if_neg hrunning]
    cases hfirst : collectFirst pollText it.order s.ui.toApp s.model it.first with
    | error error =>
      rw [hfirst] at h
      cases h
    | ok first =>
      rw [hfirst] at h
      -- The first call, and then the drain loop
      obtain ⟨happ₁, hmodel₁⟩ := collectFirst_eq_ok hfirst
      obtain ⟨drained, hdrained, hresult⟩ := Option.map_eq_some_iff.mp h
      obtain ⟨happ₂, hmodel₂⟩ := drainReadyEvents_app hdrained
      simp only [hdrained, Option.elim_some]
      split at hresult
      · cases hresult
        refine ⟨happ₁.trans happ₂, ?_⟩
        rw [hmodel₂, hmodel₁, observeSteps, observeSteps, observeSteps, List.foldl_append]
      · cases hresult

end Collecting

/-! ## Lost selections -/

/-- The details say that the selection is gone. -/
def Screen.LosesSelection (screen : Screen) : Prop :=
  ∃ area, screen.details = some (area, [[("Selection no longer retained", .unknown)]])

section LostSelections

variable {u : Unicode} {w : Format.DisplayWidth} {model : ObservationModel}

/-- The lines of fields start with a label and a value. -/
private theorem fields_lines_cases (width : Nat) (fields : List Field) :
    fields.flatMap (fieldLines w width) = [] ∨
      ∃ label value rest, fields.flatMap (fieldLines w width) = [label, value] :: rest := by
  induction fields with
  | nil => exact .inl rfl
  | cons field fields ih =>
    rw [List.flatMap_cons]
    -- Only the first part of a value stands on the line of the label
    cases hparts : Format.wrap w field.value (width - field.label.length)
        (width - min (field.label.length + 4) (width - 1)) with
    | nil =>
      have hnone : fieldLines w width field = [] := by simp [fieldLines, hparts]
      rw [hnone]
      exact ih
    | cons part parts =>
      rw [fieldLines, hparts, List.zipIdx_cons, List.map_cons, List.cons_append]
      exact .inr ⟨(field.label, .heading), (part, field.style), _, rfl⟩

/-- The line for a lost selection is only drawn when there are no fields. -/
private theorem detailFields_eq_nil {orders : RuleOrders} {width : Nat} {selected : Option RowKind}
    (h : detailLines u orders model w width selected =
      [[("Selection no longer retained", .unknown)]]) :
    detailFields u orders model selected = [] := by
  simp only [detailLines] at h
  split at h
  · rename_i hempty
    exact List.isEmpty_iff.mp hempty
  · obtain hnone | ⟨label, value, rest, hlines⟩ :=
      fields_lines_cases (w := w) width (detailFields u orders model selected)
    · rw [hnone] at h
      cases h
    · rw [hlines] at h
      cases h

/-- What is kept has details. -/
private theorem tab_of_detailFields_eq_nil {orders : RuleOrders} {tab : Tab} {kind : RowKind}
    (hitem : IsItem model tab kind) (h : detailFields u orders model (some kind) = []) :
    tab = .denials := by
  obtain ⟨htab, hkept⟩ := hitem
  cases kind with
  | domain id =>
    -- The record is there, and its details have fields
    obtain ⟨domain, hdomain⟩ := Finmap.mem_iff.mp hkept
    simp [detailFields, State.domain, hdomain, domainFields] at h
  -- Denials can be evicted while they are selected
  | denialDomain id =>
    cases htab
    rfl
  | denial key =>
    cases htab
    rfl
  | ruleset id =>
    obtain ⟨ruleset, hruleset⟩ := Finmap.mem_iff.mp hkept
    simp [detailFields, State.ruleset, hruleset, rulesetFields] at h
  | heading => cases htab

/-- A selection that is gone is a denial. -/
private theorem tab_of_losesSelection {ui : Ui} {frame : Frame} (h : Selects model ui.toApp)
    (hloses : (ui.draw u w model frame).2.LosesSelection) :
    (ui.draw u w model frame).2.tab = .denials := by
  obtain ⟨area, hdetails⟩ := hloses
  unfold Ui.draw at hdetails ⊢
  by_cases hstats : ui.tab = .stats
  · simp [hstats] at hdetails
  · simp only [if_neg hstats] at hdetails ⊢
    obtain ⟨pane, hpane, hlines⟩ := Option.map_eq_some_iff.mp hdetails
    have hfields := detailFields_eq_nil (Prod.mk.inj hlines).2
    -- There is a pane for details only if they are shown
    have hdetail : ui.detail = true := by
      by_contra hhidden
      simp [listPanes, hhidden, paneAreas] at hpane
    obtain ⟨kind, hkind⟩ := Option.isSome_iff_exists.mp (h.detail hdetail)
    rw [hkind] at hfields
    exact tab_of_detailFields_eq_nil (h.item kind hkind) hfields

end LostSelections

/-! ## Runs -/

section Runs

variable {u : Unicode} {w : Format.DisplayWidth} {pollText : PollError → String}

/-- What an iteration does with the model that it has collected: it fails before the drawing,
    or it draws and then handles the event of the terminal, if there is one. -/
inductive Step (u : Unicode) (w : Format.DisplayWidth) (s : Session) (model : ObservationModel) :
    Session → List Screen → Prop where
  | fails (error : SessionError) : Step u w s model { s with result := some (.error error) } []
  | failsToDraw {app : App} (happ : SameButWarning s.ui.toApp app) (error : IoError) :
      Step u w s model ⟨{ s.ui with toApp := app }, model, some (.error (.io error))⟩ []
  | draws {app : App} (happ : SameButWarning s.ui.toApp app) (frame : Frame)
      (result : Option (Except SessionError Unit)) :
      Step u w s model ⟨(Ui.draw u w model { s.ui with toApp := app } frame).1, model, result⟩
        [(Ui.draw u w model { s.ui with toApp := app } frame).2]
  | handles {app : App} (happ : SameButWarning s.ui.toApp app) (frame : Frame)
      {event : TerminalEvent} {ui : Ui}
      (hevent : (Ui.draw u w model { s.ui with toApp := app } frame).1.handle model event =
        some ui) :
      Step u w s model ⟨ui, model, none⟩ [(Ui.draw u w model { s.ui with toApp := app } frame).2]

/-- An iteration is one of the steps, with the model that it has collected. -/
private theorem step_spec {s s' : Session} {it : Iteration} {screens : List Screen}
    (h : s.step u w pollText it = some (s', screens)) :
    s.result = none ∧
      Step u w s (observeSteps s.model (s.received pollText it)) s' screens := by
  unfold Session.step at h
  -- A session that has returned takes no steps
  split at h
  · cases h
  · rename_i hrunning
    refine ⟨by simpa using hrunning, ?_⟩
    split at h
    · cases h
    · cases h
      exact .fails _
    · rename_i app model hcollect
      obtain ⟨happ, rfl⟩ := collect_eq_ok hcollect
      split at h
      · cases h
        exact .failsToDraw happ _
      · rename_i frame _
        dsimp only at h
        split at h
        · cases h
          exact .draws happ frame _
        · cases h
          exact .draws happ frame _
        · split at h
          · cases h
            exact .draws happ frame _
          · rename_i hhandle
            cases h
            exact .handles happ frame hhandle

/-- The model has observed what was received, and the selection is an item of it. -/
structure SessionInv (s : Session)
    (collected : List (IterOrder DenialKey AggregatedDenial × Event)) : Prop where
  model : s.result = none → s.model = ObservationModel.observeAll collected
  selects : Selects s.model s.ui.toApp

/-- Events are observed one after the other. -/
private theorem observeAll_append
    (steps steps' : List (IterOrder DenialKey AggregatedDenial × Event)) :
    ObservationModel.observeAll (steps ++ steps') =
      observeSteps (ObservationModel.observeAll steps) steps' :=
  List.foldl_append

/-- Items stay items while events are observed. -/
private theorem Selects.observeSteps {model : ObservationModel} {app : App} (h : Selects model app)
    (steps : List (IterOrder DenialKey AggregatedDenial × Event)) :
    Selects (observeSteps model steps) app := by
  induction steps generalizing model with
  | nil => exact h
  | cons step steps ih =>
    exact ih ⟨fun kind hkind => (h.item kind hkind).observe step.1 step.2, h.detail⟩

/-- What an iteration keeps, and what it shows. -/
theorem step_sessionInv {s s' : Session} {it : Iteration} {screens : List Screen}
    {collected : List (IterOrder DenialKey AggregatedDenial × Event)}
    (h : SessionInv s collected) (hstep : s.step u w pollText it = some (s', screens)) :
    SessionInv s' (collected ++ s.received pollText it) ∧
      ∀ screen ∈ screens, screen.LosesSelection → screen.tab = .denials := by
  obtain ⟨hrunning, hspec⟩ := step_spec hstep
  have hmodel : observeSteps s.model (s.received pollText it) =
      ObservationModel.observeAll (collected ++ s.received pollText it) := by
    rw [observeAll_append, h.model hrunning]
  have hselects : ∀ {app : App}, SameButWarning s.ui.toApp app →
      Selects (observeSteps s.model (s.received pollText it)) app := fun happ =>
    happ.selects (h.selects.observeSteps _)
  rw [hmodel] at hspec hselects
  -- A failure ends the session; its model may lack what was drained before the failure
  cases hspec with
  | fails error => exact ⟨⟨fun hnone => (by cases hnone), h.selects⟩, by simp⟩
  | failsToDraw happ error =>
    exact ⟨⟨fun hnone => (by cases hnone), hselects happ⟩, by simp⟩
  | @draws app happ frame result =>
    have hui : Selects _ { s.ui with toApp := app }.toApp := hselects happ
    refine ⟨⟨fun _ => rfl, selects_draw hui⟩, fun screen hscreen => ?_⟩
    rw [List.mem_singleton.mp hscreen]
    exact tab_of_losesSelection hui
  | @handles app happ frame event ui hevent =>
    have hui : Selects _ { s.ui with toApp := app }.toApp := hselects happ
    refine ⟨⟨fun _ => rfl, ?_⟩, fun screen hscreen => ?_⟩
    · -- the handlers see the rows of this very drawing
      exact (selects_draw hui).handle lists_draw
        (ObservationModel.observeAll_integrity _) hevent
    · rw [List.mem_singleton.mp hscreen]
      exact tab_of_losesSelection hui

/-- A run of the loop together with the events that it receives. -/
def receivedRun (u : Unicode) (w : Format.DisplayWidth) (pollText : PollError → String)
    (iterations : List Iteration) :
    Option (Session × List (Screen ⊕ IterOrder DenialKey AggregatedDenial × Event)) :=
  Machine.run (Machine.annotate (Session.received pollText) (Session.step u w pollText)) .new
    iterations

/-- Noting the events changes nothing about a run. -/
theorem received_run (iterations : List Iteration) :
    (receivedRun u w pollText iterations).map (fun r => (r.1, r.2.filterMap Sum.getLeft?)) =
      Session.run u w pollText iterations :=
  Machine.run_annotate (Session.received pollText) .new iterations

/-- In every session, whatever the keys, the mouse and the collector do: until it returns, the
    model has observed exactly the events that were received while it was not paused; what is
    selected is an item of the tab that is shown, and it is still part of the state; and only in
    the tab of the denials can the details of a selection be gone. -/
theorem session_safe {iterations : List Iteration} {s : Session}
    {trace : List (Screen ⊕ IterOrder DenialKey AggregatedDenial × Event)}
    (hrun : receivedRun u w pollText iterations = some (s, trace)) :
    (s.result = none →
      s.model = ObservationModel.observeAll (trace.filterMap Sum.getRight?)) ∧
    Selects s.model s.ui.toApp ∧
    ∀ screen, Sum.inl screen ∈ trace → screen.LosesSelection → screen.tab = .denials := by
  have hinv := Machine.run_invariant
    (I := fun s trace => SessionInv s (trace.filterMap Sum.getRight?) ∧
      ∀ screen, Sum.inl screen ∈ trace → screen.LosesSelection → screen.tab = .denials)
    (h := []) ?_ ⟨⟨fun _ => rfl, ⟨fun _ h => (by cases h), fun h => (by cases h)⟩⟩, by simp⟩
    (Machine.along_true _ _) hrun
  · exact ⟨hinv.1.model, hinv.1.selects, hinv.2⟩
  · rintro s trace it s' os ⟨hinv, hscreens⟩ - hstep
    obtain ⟨screens, hsession, rfl⟩ := Machine.annotate_eq_some _ hstep
    obtain ⟨hinv', hscreens'⟩ := step_sessionInv hinv hsession
    refine ⟨?_, fun screen hscreen => ?_⟩
    · -- the notes of a step are the events that it received
      have hreceived : ((s.received pollText it).map Sum.inr ++ screens.map Sum.inl).filterMap
          Sum.getRight? = s.received pollText it := by
        rw [List.filterMap_append, List.filterMap_map, List.filterMap_map]
        simp [Function.comp_def]
      rw [List.filterMap_append, hreceived]
      exact hinv'
    · rcases List.mem_append.mp hscreen with hold | hnew
      · exact hscreens screen hold
      · exact hscreens' screen (by simpa using hnew)

/-- In a list with one ruleset, a key that moves down selects it. -/
private theorem selected_moveSelection_of_rows {app : App} {id : RulesetId}
    (hrows : app.rows = [.ruleset id]) (hselected : app.selected = none) :
    (app.moveSelection 1).selected = some (.ruleset id) := by
  have hselectable : App.selectable app.rows = [(0, .ruleset id)] := by
    rw [hrows]
    rfl
  simp [App.moveSelection, hselectable, hselected, App.nextPosition]

/-- An iteration that receives an event, or nothing in time, and then a key. -/
noncomputable def keyIteration (first : Except ReceiveTimeoutError Event) (code : KeyCode) :
    Iteration where
  first
  receive := fun _ => .error .empty
  rounds := 1
  order := default
  drainOrders := fun _ => default
  frame := .ok firstFrame
  input := .ok (some (.key code .press))

/-- A ruleset is created while its tab is opened, and then it is selected. -/
noncomputable def selectingSession : List Iteration :=
  [keyIteration (.ok rulesetCreated) (.char '3'), keyIteration (.error .timeout) .down]

/-- A session in which the user selects a ruleset that was received. -/
theorem session_safe_selecting :
    ∃ s trace,
      receivedRun .reference .ascii (fun _ => "") selectingSession =
        some (s, trace) ∧
      s.ui.selected = some (.ruleset default) ∧
      trace.filterMap Sum.getRight? = [(default, rulesetCreated)] ∧
      s.model = ObservationModel.observeAll (trace.filterMap Sum.getRight?) ∧
      IsItem s.model s.ui.tab (.ruleset default) := by
  obtain ⟨s, trace, ui, hrun, hresult, hreceived, hui, htab, hselected, hdetail⟩ : ∃ s trace ui,
      receivedRun .reference .ascii (fun _ => "") selectingSession =
        some (s, trace) ∧
      s.result = none ∧ trace.filterMap Sum.getRight? = [(default, rulesetCreated)] ∧
      s.ui = (Ui.draw .reference .ascii rulesetModel ui firstFrame).1.moveSelection 1 ∧
      ui.tab = .rulesets ∧ ui.selected = none ∧ ui.detail = false :=
    ⟨_, _, (Ui.draw .reference .ascii rulesetModel .new firstFrame).1.setTab .rulesets,
      rfl, rfl, rfl, rfl, rfl, rfl, rfl⟩
  -- The second drawing has the row of the ruleset, which the key then selects
  have hchosen : s.ui.selected = some (.ruleset default) := by
    have hrows := rows_draw_rulesetModel htab hselected hdetail
    have hnone : (Ui.draw .reference .ascii rulesetModel ui firstFrame).1.selected =
        none := by
      rw [(drawsList _ _ _ _ (htab.trans_ne (by decide : Tab.rulesets ≠ .stats))).app]
      exact hselected
    rw [hui]
    exact selected_moveSelection_of_rows hrows hnone
  obtain ⟨hmodel, hselects, -⟩ := session_safe hrun
  exact ⟨s, trace, hrun, hchosen, hreceived, hmodel hresult, hselects.item _ hchosen⟩

end Runs

end Landlock.Tui
