import LandlockObservability.ForStd.Machine
import LandlockObservability.Model.Details
import LandlockObservability.Model.Drain
import LandlockObservability.Model.Privilege

/-!
# The interactive session

Models the loop of `run` in `lltop/src/tui/mod.rs`, with the handlers of the keys and of the
mouse, and `draw` of `lltop/src/tui/ui.rs` with the hit map that it leaves for them.

An iteration collects, draws and then handles at most one event of the terminal.  What the
program does not decide is part of the iteration: what the receive calls return, how the layout
divides the screen, the orders of hash maps, and what the terminal reports.  The widgets are not
modelled; a `Screen` says what they are given, and where.
-/

namespace Landlock.Tui

/-! ## Rectangles -/

/-- `Rect`. -/
structure Rect where
  x : UInt16
  y : UInt16
  width : UInt16
  height : UInt16
  deriving DecidableEq, Repr

/-- `Rect::default`. -/
def Rect.zero : Rect := ⟨0, 0, 0, 0⟩

def Rect.area (rect : Rect) : Area := ⟨rect.width, rect.height⟩

/-- `u16::checked_add`. -/
def checkedAdd (a b : UInt16) : Option UInt16 :=
  if a.toNat + b.toNat < 2 ^ 16 then some (a + b) else none

/-- `u16::checked_sub`. -/
def checkedSub (a b : UInt16) : Option UInt16 :=
  if b.toNat ≤ a.toNat then some (a - b) else none

/-- `u16::saturating_sub`. -/
def saturatingSub (a b : UInt16) : UInt16 := (checkedSub a b).getD 0

/-! ## Tabs -/

namespace Tab

/-- `Tab::ALL`. -/
def all : List Tab := [domains, denials, rulesets, stats]

/-- `Tab::title`. -/
def title : Tab → String
  | domains => "Domains [1]"
  | denials => "Denials [2]"
  | rulesets => "Rulesets [3]"
  | stats => "Stats [4]"

end Tab

/-- The loop of `clicked_tab`: titles have a space on both sides, and a divider follows. -/
def tabAt (relative : Nat) : Nat → List Tab → Option Tab
  | _, [] => none
  | start, tab :: tabs =>
    let stop := start + tab.title.utf8ByteSize + 2
    if start ≤ relative ∧ relative < stop then some tab else tabAt relative (stop + 1) tabs

/-- `clicked_tab`. -/
def clickedTab (area : Rect) (column row : UInt16) : Option Tab := do
  -- The titles stand on the line below the border
  let line ← checkedAdd area.y 1
  if row ≠ line ∨ column.toNat ≤ area.x.toNat then
    none
  else
    let relative ← (checkedSub column area.x).bind (checkedSub · 1)
    tabAt relative.toNat 0 Tab.all

/-! ## The state of the user interface -/

/-- `App` with its other field and the rest of its hit map. -/
structure Ui extends App where
  draggingScrollbar : Bool
  tabs : Rect
  list : Rect
  headerRows : UInt16
  deriving DecidableEq, Repr

namespace Ui

/-- `App::new`. -/
def new : Ui :=
  { App.new with draggingScrollbar := false, tabs := .zero, list := .zero, headerRows := 0 }

/-- `App::close_detail`. -/
def closeDetail (ui : Ui) : Ui := { ui with detail := false }

/-- `App::set_tab`. -/
def setTab (ui : Ui) (tab : Tab) : Ui := { ui with toApp := ui.toApp.setTab tab }

/-- `App::cycle_tab`. -/
def cycleTab (ui : Ui) : Ui :=
  ui.setTab <| match ui.tab with
    | .domains => .denials
    | .denials => .rulesets
    | .rulesets => .stats
    | .stats => .domains

/-- `App::scroll_by`. -/
def scrollBy (ui : Ui) (delta : Int) : Ui :=
  { ui with
    -- The viewport stays where the user puts it
    followSelection := false
    scroll :=
      if delta < 0 then ui.scroll - delta.natAbs
      else Format.usizeSaturatingAdd ui.scroll delta.natAbs }

/-- `App::scroll_to`. -/
def scrollTo (ui : Ui) (scroll : Nat) : Ui := { ui with followSelection := false, scroll }

/-- `App::move_selection`. -/
def moveSelection (ui : Ui) (delta : Int) : Ui := { ui with toApp := ui.toApp.moveSelection delta }

/-- `follow_domain`. -/
def followDomain (model : ObservationModel) (ui : Ui) : Ui :=
  let id := match ui.selected with
    | some (.domain id) => some id
    -- Also from the list of the denials
    | some (.denialDomain id) => some id
    | _ => none
  match (id.bind model.state.domain).bind domainRuleset with
  | none => ui
  | some ruleset => { ui.setTab .rulesets with selected := some (.ruleset ruleset), detail := true }

end Ui

/-- `scrollbar_hit`. -/
def scrollbarHit (area : Rect) (column row : UInt16) : Bool :=
  if area.width = 0 then false
  else
    -- The column of the right border
    match checkedAdd area.x (saturatingSub area.width 1) with
    | none => false
    | some scrollbarColumn =>
      match checkedAdd area.y (saturatingSub area.height 1) with
      | none => false
      | some scrollbarBottom =>
        scrollbarColumn = column ∧ area.y.toNat < row.toNat ∧ row.toNat < scrollbarBottom.toNat

namespace Ui

/-- The position in `hit.rows` that `click_row` finds for a place on the screen. -/
def clickedIndex (ui : Ui) (column row : UInt16) : Option Nat := do
  let area := ui.list
  let right ← checkedAdd area.x area.width
  let bottom ← checkedAdd area.y (saturatingSub area.height 1)
  -- Outside of the list, or on its upper or lower border
  if column.toNat < area.x.toNat ∨ right.toNat ≤ column.toNat ∨ row.toNat ≤ area.y.toNat ∨
      bottom.toNat ≤ row.toNat then
    none
  else
    let visible ← (checkedSub row area.y).bind (checkedSub · ui.headerRows)
    some (Format.usizeSaturatingAdd ui.scroll visible.toNat)

/-- `click_row`. -/
def clickRow (ui : Ui) (column row : UInt16) : Ui :=
  match ((ui.clickedIndex column row).bind fun index => ui.rows[index]?).filter
      fun kind => kind ≠ .heading with
  | some kind => { ui with selected := some kind, detail := true }
  | none => ui

/-- `usize::saturating_mul`. -/
def usizeSaturatingMul (a b : Nat) : Nat := min (a * b) usizeMax

/-- `drag_scrollbar`. -/
def dragScrollbar (ui : Ui) (row : UInt16) : Ui :=
  let height := max (saturatingSub ui.list.height 2).toNat 1
  match checkedAdd ui.list.y 1 with
  | none => ui.scrollTo 0
  | some trackStart =>
    -- Above the track is its start, below it its end
    let relative := min (saturatingSub row trackStart).toNat (height - 1)
    let maxScroll := ui.rows.length - height
    -- The divisor is never 0, so the default of `checked_div` is not needed
    ui.scrollTo (usizeSaturatingMul relative maxScroll / max (height - 1) 1)

end Ui

/-! ## Events of the terminal -/

/-- `KeyCode`, as far as `run` looks at it. -/
inductive KeyCode where
  | char (character : Char)
  | esc
  | tab
  | up
  | down
  | enter
  | other
  deriving DecidableEq, Repr

/-- `KeyEventKind`. -/
inductive KeyEventKind where
  | press
  | repeated
  | release
  deriving DecidableEq, Repr

/-- `MouseButton`. -/
inductive MouseButton where
  | left
  | right
  | middle
  deriving DecidableEq, Repr

/-- `MouseEventKind`. -/
inductive MouseEventKind where
  | down (button : MouseButton)
  | up (button : MouseButton)
  | drag (button : MouseButton)
  | moved
  | scrollDown
  | scrollUp
  | scrollLeft
  | scrollRight
  deriving DecidableEq, Repr

/-- `crossterm::event::Event`; focus, paste and resize events are not looked at. -/
inductive TerminalEvent where
  | key (code : KeyCode) (kind : KeyEventKind)
  | mouse (kind : MouseEventKind) (column row : UInt16)
  | other
  deriving DecidableEq, Repr

/-- `WHEEL_SCROLL_ROWS`. -/
def wheelScrollRows : Int := 3

namespace Ui

variable (model : ObservationModel)

/-- A key in `run`; `none` ends the loop. -/
def handleKey (ui : Ui) : KeyCode → Option Ui
  | .char 'q' => none
  -- The first `Esc` closes the details, the second one ends the session
  | .esc => if ui.detail then some ui.closeDetail else none
  | .char '1' => some (ui.setTab .domains)
  | .char '2' => some (ui.setTab .denials)
  | .char '3' => some (ui.setTab .rulesets)
  | .char '4' => some (ui.setTab .stats)
  | .tab => some ui.cycleTab
  | .char 'p' => some { ui with paused := !ui.paused }
  | .up => some (ui.moveSelection (-1))
  | .down => some (ui.moveSelection 1)
  | .enter => some (ui.followDomain model)
  | _ => some ui

/-- The left button in `run`. -/
def leftDown (ui : Ui) (column row : UInt16) : Ui :=
  match clickedTab ui.tabs column row with
  | some tab => ui.setTab tab
  | none =>
    -- A click on the scrollbar also moves to its place
    if scrollbarHit ui.list column row then
      { ui with draggingScrollbar := true }.dragScrollbar row
    else
      ui.clickRow column row

/-- A mouse event in `run`. -/
def handleMouse (ui : Ui) (column row : UInt16) : MouseEventKind → Ui
  | .scrollUp => ui.scrollBy (-wheelScrollRows)
  | .scrollDown => ui.scrollBy wheelScrollRows
  | .down .left => ui.leftDown column row
  | .drag .left => if ui.draggingScrollbar then ui.dragScrollbar row else ui
  | .up .left => { ui with draggingScrollbar := false }
  | _ => ui

/-- An event in `run`; `none` ends the loop. -/
def handle (ui : Ui) : TerminalEvent → Option Ui
  -- Repeated and released keys are ignored
  | .key code .press => ui.handleKey model code
  | .mouse kind column row => some (ui.handleMouse column row kind)
  | _ => some ui

end Ui

/-! ## Drawing -/

/-- What differs from one drawing to the next: how the layouts divide the screen and, for the
    details, the main area; and the orders of the maps. -/
structure Frame where
  vertical : List Rect
  panes : List Rect
  orders : ModelOrders
  domains : IterOrder DomainId DomainState
  denialDomains : IterOrder DomainId (List AggregatedDenial)
  groups : DomainId → IterOrder String (List AggregatedDenial)
  rules : RuleOrders

/-- `ScrollbarState`. -/
structure ScrollbarState where
  contentLength : Nat
  position : Nat
  viewportContentLength : Nat
  deriving DecidableEq, Repr

/-- What the widgets are given: the tabs with the status line, and either the statistics or the
    lines of the list, with the scrollbar on its border and the details beside it. -/
structure Screen where
  tab : Tab
  tabs : Rect
  status : String
  list : Rect
  lines : List DisplayRow
  scrollbar : Option ScrollbarState
  stats : List String
  details : Option (Rect × List DetailLine)

/-- `vertical_areas`, with the default of `draw`. -/
def verticalAreas : List Rect → Rect × Rect × Rect
  | tabs :: main :: footer :: _ => (tabs, main, footer)
  -- `unwrap_or_default`
  | _ => (.zero, .zero, .zero)

/-- `pane_areas`, with the default of `draw`. -/
def paneAreas : List Rect → Rect × Option Rect
  | list :: detail :: _ => (list, some detail)
  | [list] => (list, none)
  | [] => (.zero, none)

section

variable (u : Unicode) (w : Format.DisplayWidth) (model : ObservationModel)

/-- The areas of the list and of the details in `draw`. -/
def listPanes (ui : Ui) (frame : Frame) : Rect × Option Rect :=
  let main := (verticalAreas frame.vertical).2.1
  -- The statistics have no details
  paneAreas (if ui.detail ∧ ui.tab ≠ .stats then frame.panes else [main])

/-- The orders of a frame for the drawing of a list in an area. -/
def Frame.redraw (frame : Frame) (area : Area) : Redraw :=
  ⟨area, frame.domains, frame.denialDomains, frame.groups⟩

/-- The lines that `draw_list` gives to its widget: those of the viewport. -/
def listLines (area : Area) (app : App) (rows : List DisplayRow) : List DisplayRow :=
  ((rows.flatMap (wrapRow w (area.width.toNat - 2))).drop app.scroll).take area.visible

/-- The scrollbar that `draw_list` draws: none if all lines are visible. -/
def listScrollbar (area : Area) (app : App) : Option ScrollbarState :=
  if app.rows.length > area.visible then
    some ⟨app.rows.length, app.scroll, area.visible⟩
  else
    none

/-- `draw`. -/
def Ui.draw (ui : Ui) (frame : Frame) : Ui × Screen :=
  let tabs := (verticalAreas frame.vertical).1
  let (list, detail) := listPanes ui frame
  let redraw := frame.redraw list.area
  let status := statusLine frame.orders.domains ui.toApp model
  let app := Tui.draw u w frame.orders model ui.toApp redraw
  if ui.tab = .stats then
    -- The hit map is reset: nothing of a former list can be clicked
    ({ ui with toApp := app, tabs, list := .zero, headerRows := 0 },
      ⟨ui.tab, tabs, status, list, [], none, statsLines model, none⟩)
  else
    let rows := tabRows u w frame.orders model redraw ui.tab ui.selected
    ({ ui with toApp := app, tabs, list, headerRows := 1 },
      { tab := ui.tab
        tabs
        status
        list
        lines := listLines w list.area app rows
        scrollbar := listScrollbar list.area app
        stats := []
        details := detail.map fun area =>
          (area, detailLines u frame.rules model w (area.width.toNat - 2) ui.selected) })

end

/-! ## The loop -/

/-- An error that `run` returns. -/
inductive SessionError where
  | collector (error : ReceiveTimeoutError ⊕ TryReceiveError)
  | io (error : IoError)
  deriving DecidableEq

/-- What an iteration of the loop meets. -/
structure Iteration where
  /-- The result of `recv_timeout`. -/
  first : Except ReceiveTimeoutError Event
  /-- The results of `try_recv`. -/
  receive : Nat → Except TryReceiveError Event
  /-- A bound for the rounds of the drain loop. -/
  rounds : Nat
  order : IterOrder DenialKey AggregatedDenial
  drainOrders : Nat → IterOrder DenialKey AggregatedDenial
  /-- The drawing. -/
  frame : Except IoError Frame
  /-- The event of the terminal, if there is one in time. -/
  input : Except IoError (Option TerminalEvent)

/-- The variables of `run`, and what it has returned. -/
structure Session where
  ui : Ui
  model : ObservationModel
  result : Option (Except SessionError Unit)

namespace Session

/-- The session before its first iteration. -/
def new : Session := ⟨.new, .new, none⟩

section

variable (u : Unicode) (w : Format.DisplayWidth) (pollText : PollError → String)

/-- An iteration of the loop.  It is not possible after `run` has returned, nor when the drain
    loop needs more rounds. -/
def step (s : Session) (it : Iteration) : Option (Session × List Screen) :=
  if s.result.isSome then
    none
  else
    match collect pollText it.drainOrders it.receive it.order s.ui.toApp s.model it.first
        it.rounds with
    | none => none
    -- What was drained before the error is lost with the session
    | some (.error error) => some ({ s with result := some (.error (.collector error)) }, [])
    | some (.ok (app, model)) =>
      match it.frame with
      | .error error =>
        some (⟨{ s.ui with toApp := app }, model, some (.error (.io error))⟩, [])
      | .ok frame =>
        let (ui, screen) := Ui.draw u w model { s.ui with toApp := app } frame
        -- `poll` and `read` of the terminal
        match it.input with
        | .error error => some (⟨ui, model, some (.error (.io error))⟩, [screen])
        | .ok none => some (⟨ui, model, none⟩, [screen])
        | .ok (some event) =>
          match ui.handle model event with
          | none => some (⟨ui, model, some (.ok ())⟩, [screen])
          | some ui => some (⟨ui, model, none⟩, [screen])

/-- A run of the loop, with the screens that it draws. -/
def run (iterations : List Iteration) : Option (Session × List Screen) :=
  Machine.run (step u w pollText) new iterations

end

end Session

end Landlock.Tui
