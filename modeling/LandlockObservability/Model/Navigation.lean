import LandlockObservability.Model.Rows
import LandlockObservability.Model.Wrap

/-!
# Navigation in the lists

Models the selection and the viewport of `lltop/src/tui/ui.rs`: `App::move_selection`,
`viewport_scroll` and `draw_list`, with the keys that `lltop/src/tui/mod.rs` binds to them.

The fields of `App` and `HitMap` that only the mouse and the status line use are left out, as
is the drawing itself.  Row counts and positions are far below `usize::MAX`, so that they are
natural numbers here.
-/

namespace Landlock.Tui

/-- `Tab`. -/
inductive Tab where
  | domains
  | denials
  | rulesets
  | stats
  deriving DecidableEq, Repr

/-- `App`, with `hit.rows`. -/
structure App where
  tab : Tab
  paused : Bool
  collectorWarning : Option String
  selected : Option RowKind
  detail : Bool
  scroll : Nat
  followSelection : Bool
  rows : List RowKind
  deriving DecidableEq, Repr

namespace App

/-- `App::new`. -/
def new : App := ⟨.domains, false, none, none, false, 0, true, []⟩

/-- `App::set_tab`. -/
def setTab (app : App) (tab : Tab) : App :=
  -- The hit map stays until the next drawing
  { app with tab, selected := none, detail := false, scroll := 0, followSelection := true }

/-- The list `selectable` of `move_selection`: the selectable rows with their positions, those
    of one item once. -/
def selectable (rows : List RowKind) : List (Nat × RowKind) :=
  rows.zipIdx.foldl
    (fun selectable (row, index) =>
      -- The lines of one item follow each other
      if row.selectable && selectable.getLast?.all (fun previous => previous.2 ≠ row) then
        selectable ++ [(index, row)]
      else
        selectable) []

/-- The position `next` of `move_selection`; only the sign of `delta` matters. -/
def nextPosition (current : Option Nat) (last : Nat) (delta : Int) : Nat :=
  match current with
  | none => if delta < 0 then last else 0
  | some index => if delta < 0 then index - 1 else min (index + 1) last

/-- `App::move_selection`. -/
def moveSelection (app : App) (delta : Int) : App :=
  let app := { app with followSelection := true }
  let selectable := selectable app.rows
  if selectable.isEmpty then
    app
  else
    -- A selection that is not in the list counts as none
    let current := app.selected.bind fun selected =>
      selectable.findIdx? fun previous => previous.2 = selected
    match selectable[nextPosition current (selectable.length - 1) delta]? with
    | some (_, row) => { app with selected := some row, detail := true }
    | none => app

end App

/-- `viewport_scroll`. -/
def viewportScroll (scroll rowCount visible : Nat) (selectedIndex : Option Nat)
    (followSelection : Bool) : Nat :=
  -- The list may have become shorter
  let scroll := min scroll (rowCount - visible)
  if !followSelection then
    scroll
  else
    match selectedIndex with
    | some index =>
      -- The viewport moves no further than it has to
      if index < scroll then index
      else if scroll + visible ≤ index then index + 1 - visible
      else scroll
    | none => scroll

/-- The size of a `Rect`. -/
structure Area where
  width : UInt16
  height : UInt16
  deriving DecidableEq, Repr

/-- The lines of a list between its borders. -/
def Area.visible (area : Area) : Nat := area.height.toNat - 2

section

variable (w : Format.DisplayWidth)

/-- The lines of a row in `draw_list`. -/
def wrapRow (contentWidth : Nat) (row : DisplayRow) : List DisplayRow :=
  -- By default, continuation lines are indented by four more columns
  let contentStart := (row.text.toList.takeWhile (· = ' ')).length
  let continuation := min (row.continuationIndent.getD (contentStart + 4)) (contentWidth - 1)
  (Format.wrap w row.text contentWidth (contentWidth - continuation)).zipIdx.map
    fun (text, index) =>
      let indent := String.ofList (List.replicate continuation ' ')
      { row with text := if index = 0 then text else indent ++ text }

/-- `draw_list`. -/
def drawList (area : Area) (app : App) (rows : List DisplayRow) : App :=
  let contentWidth := area.width.toNat - 2
  let kinds := (rows.flatMap (wrapRow w contentWidth)).map DisplayRow.kind
  -- The first line of the selected item
  let selectedIndex := app.selected.bind fun selected => kinds.findIdx? (· = selected)
  { app with
    scroll :=
      viewportScroll app.scroll kinds.length area.visible selectedIndex app.followSelection
    rows := kinds }

end

/-- The orders of the maps of a model that is not changed. -/
structure ModelOrders where
  domains : IterOrder DomainId DomainState
  entries : IterOrder DenialKey AggregatedDenial
  rulesets : IterOrder RulesetId RulesetState

/-- What differs from one drawing to the next: the area of the list and the orders of the maps
    that are built for the drawing. -/
structure Redraw where
  area : Area
  domains : IterOrder DomainId DomainState
  denialDomains : IterOrder DomainId (List AggregatedDenial)
  groups : DomainId → IterOrder String (List AggregatedDenial)

section

variable (u : Unicode) (w : Format.DisplayWidth) (orders : ModelOrders) (model : ObservationModel)

/-- The rows of a tab in `draw`. -/
def tabRows (redraw : Redraw) (tab : Tab) (selected : Option RowKind) : List DisplayRow :=
  match tab with
  | .domains => domainRows u orders.domains redraw.domains model selected
  | .denials =>
    denialRows u w.width model selected ⟨orders.entries, redraw.denialDomains, redraw.groups⟩
  | .rulesets => rulesetRows orders.rulesets model selected
  | .stats => []

/-- `draw`, for the state of the list. -/
def draw (app : App) (redraw : Redraw) : App :=
  if app.tab = .stats then { app with rows := [] }
  else drawList w redraw.area app (tabRows u w orders model redraw app.tab app.selected)

/-- What the user interface does while the model is not changed: the keys for the selection,
    and drawing. -/
inductive Action where
  | up
  | down
  | draw (redraw : Redraw)

/-- An action. -/
def App.step (app : App) : Action → App
  | .up => app.moveSelection (-1)
  | .down => app.moveSelection 1
  | .draw redraw => Tui.draw u w orders model app redraw

/-- A sequence of actions. -/
def App.run (app : App) (actions : List Action) : App :=
  actions.foldl (App.step u w orders model) app

end

end Landlock.Tui
