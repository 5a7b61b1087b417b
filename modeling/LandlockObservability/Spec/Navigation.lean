import LandlockObservability.Spec.ListItems

/-!
# The keyboard reaches every item and keeps it in view

The keys move a cursor over the items of the list (`Cursor.up` and `Cursor.down`).  The
selection is stored as an item and not as a position, and every key looks for it again in the
rows of the last drawing.  Drawing may break the lines differently each time; since no item is
shown twice, its lines are consecutive and the position that is found is the cursor.
-/

namespace Landlock.Tui

/-! ## Drawing -/

/-- The lines of a row are of its kind. -/
theorem kinds_wrapRow (w : Format.DisplayWidth) (contentWidth : Nat) (row : DisplayRow) :
    kinds (wrapRow w contentWidth row) =
      List.replicate (wrapRow w contentWidth row).length row.kind := by
  refine List.eq_replicate_iff.mpr ⟨List.length_map _, fun kind hkind => ?_⟩
  rw [kinds, wrapRow, List.map_map] at hkind
  obtain ⟨_, _, rfl⟩ := List.mem_map.mp hkind
  rfl

/-- Every row has at least one line. -/
private theorem wrapRow_ne_nil (w : Format.DisplayWidth) (contentWidth : Nat) (row : DisplayRow) :
    wrapRow w contentWidth row ≠ [] := by
  rw [wrapRow, ne_eq, List.map_eq_nil_iff, List.zipIdx_eq_nil_iff]
  exact Format.wrap_ne_nil w _ _ _

/-- A row that is too wide has more than one line. -/
private theorem one_lt_length_wrapRow {w : Format.DisplayWidth} {contentWidth : Nat}
    {row : DisplayRow}
    (h : max contentWidth 1 < w.width row.text) : 1 < (wrapRow w contentWidth row).length := by
  rw [wrapRow, List.length_map, List.length_zipIdx]
  exact Format.one_lt_length_wrap h _

/-- Wrapping repeats the kinds of the rows. -/
theorem stretched_lines (w : Format.DisplayWidth) (contentWidth : Nat) (rows : List DisplayRow) :
    Cursor.Stretched (kinds rows) (kinds (rows.flatMap (wrapRow w contentWidth))) := by
  induction rows with
  | nil => exact .nil
  | cons row rows ih =>
    -- A row is at least one line
    obtain ⟨k, hk⟩ := Nat.exists_eq_add_of_lt
      (List.length_pos_iff.mpr (wrapRow_ne_nil w contentWidth row))
    have hsplit : kinds ((row :: rows).flatMap (wrapRow w contentWidth)) =
        List.replicate (k + 1) row.kind ++ kinds (rows.flatMap (wrapRow w contentWidth)) := by
      rw [List.flatMap_cons, kinds, List.map_append, ← kinds, kinds_wrapRow, hk, Nat.zero_add]
      rfl
    rw [hsplit]
    exact .cons row.kind k ih

/-- The viewport does not go past the last row. -/
private theorem viewportScroll_le {scroll rowCount visible : Nat} {selectedIndex : Option Nat}
    {follow : Bool} (h : ∀ index ∈ selectedIndex, index < rowCount) :
    viewportScroll scroll rowCount visible selectedIndex follow ≤ rowCount - visible := by
  simp only [viewportScroll]
  split
  · omega
  -- The selection pulls the viewport up or down, and it is a row itself
  · cases selectedIndex with
    | none => exact Nat.min_le_right _ _
    | some index =>
      have hindex := h index rfl
      simp only
      split
      · omega
      · split <;> omega

/-- The row that is followed is in the viewport. -/
private theorem mem_viewport {scroll rowCount visible index : Nat} (hvisible : 0 < visible) :
    viewportScroll scroll rowCount visible (some index) true ≤ index ∧
      index < viewportScroll scroll rowCount visible (some index) true + visible := by
  simp only [viewportScroll, Bool.not_true, Bool.false_eq_true, if_false]
  split
  · omega
  · split <;> omega

/-- A drawing leaves the viewport in the list. -/
theorem drawList_scroll_le (w : Format.DisplayWidth) (area : Area) (app : App)
    (rows : List DisplayRow) :
    (drawList w area app rows).scroll ≤ (drawList w area app rows).rows.length - area.visible := by
  refine viewportScroll_le fun index hindex => ?_
  obtain ⟨kind, _, hfound⟩ := Option.bind_eq_some_iff.mp hindex
  exact (List.findIdx?_eq_some_iff_getElem.mp hfound).1

/-- While the selection is followed, a drawing shows its first line. -/
private theorem drawList_inView {w : Format.DisplayWidth} {area : Area} {app : App}
    {rows : List DisplayRow} {kind : RowKind} (hfollow : app.followSelection = true)
    (hvisible : 0 < area.visible) (hselected : app.selected = some kind)
    (hmem : kind ∈ (drawList w area app rows).rows) :
    ∃ index, (drawList w area app rows).rows.findIdx? (· = kind) = some index ∧
      (drawList w area app rows).scroll ≤ index ∧
      index < (drawList w area app rows).scroll + area.visible := by
  obtain ⟨index, hindex⟩ : ∃ index,
      (drawList w area app rows).rows.findIdx? (· = kind) = some index := by
    rw [← Option.isSome_iff_exists, List.findIdx?_isSome, List.any_eq_true]
    exact ⟨kind, hmem, decide_eq_true rfl⟩
  refine ⟨index, hindex, ?_⟩
  -- The drawing computes the viewport for the position of the selection
  have hscroll : (drawList w area app rows).scroll = viewportScroll app.scroll
      (drawList w area app rows).rows.length area.visible (some index) true := by
    rw [← hindex, ← hfollow]
    simp only [drawList, hselected, Option.bind_some]
  rw [hscroll]
  exact mem_viewport hvisible

/-! ## The selection is a cursor -/

/-- The rows show the items in order, each on consecutive lines, between headings. -/
def Displays (items rows : List RowKind) : Prop :=
  ∃ shown, Cursor.Stretched shown rows ∧ shown.filter RowKind.selectable = items

/-- The rows of `app` show the items, and its selection is the item under the cursor. -/
structure At (items : List RowKind) (app : App) (cursor : Option Nat) : Prop where
  displayed : Displays items app.rows
  valid : Cursor.Valid items.length cursor
  selected : app.selected = cursor.bind fun i => items[i]?

section Moves

variable {items : List RowKind} {app : App} {cursor : Option Nat}

/-- Every item is shown, and can be selected. -/
private theorem Displays.mem_rows {rows : List RowKind} {kind : RowKind} (h : Displays items rows)
    (hkind : kind ∈ items) : kind ∈ rows ∧ kind.selectable = true := by
  obtain ⟨shown, hstretched, rfl⟩ := h
  obtain ⟨hshown, hselectable⟩ := List.mem_filter.mp hkind
  exact ⟨hstretched.mem_iff.mpr hshown, hselectable⟩

/-- `move_selection` collects the items. -/
theorem Displays.collected {rows : List RowKind} (h : Displays items rows)
    (hnodup : items.Nodup) : (App.selectable rows).map Prod.snd = items := by
  obtain ⟨shown, hstretched, hshown⟩ := h
  subst hshown
  exact Cursor.map_foldl_collect hstretched [] 0 hnodup

/-- Only items are selected. -/
private theorem At.selected_mem {kind : RowKind} (h : At items app cursor)
    (hkind : app.selected = some kind) : kind ∈ items := by
  rw [h.selected] at hkind
  obtain ⟨i, _, hi⟩ := Option.bind_eq_some_iff.mp hkind
  exact List.mem_of_getElem? hi

/-- The cursor is where the selected item is. -/
private theorem At.eq_some {i : Nat} (h : At items app cursor) (hnodup : items.Nodup)
    (hi : i < items.length) (hselected : app.selected = items[i]?) : cursor = some i := by
  rw [h.selected, List.getElem?_eq_getElem hi] at hselected
  obtain ⟨j, rfl, hj⟩ := Option.bind_eq_some_iff.mp hselected
  obtain ⟨hj, heq⟩ := List.getElem?_eq_some_iff.mp hj
  rw [hnodup.getElem_inj_iff] at heq
  rw [heq]

/-- The position that `move_selection` finds is the cursor. -/
theorem At.current (h : At items app cursor) (hnodup : items.Nodup) :
    (app.selected.bind fun selected =>
      (App.selectable app.rows).findIdx? fun previous => previous.2 = selected) = cursor := by
  cases cursor with
  | none =>
    rw [h.selected]
    rfl
  | some i =>
    have hi := h.valid i rfl
    have hselected : app.selected = some items[i] := by
      rw [h.selected, Option.bind_some, List.getElem?_eq_getElem hi]
    -- The positions are those in the list of the items
    have hmap : ∀ kind, (App.selectable app.rows).findIdx? (fun previous => previous.2 = kind) =
        items.findIdx? fun kind' => kind' = kind := by
      intro kind
      rw [← h.displayed.collected hnodup, List.findIdx?_map]
      rfl
    rw [hselected, Option.bind_some, hmap, List.findIdx?_eq_some_iff_getElem]
    refine ⟨hi, decide_eq_true rfl, fun j hj heq => ?_⟩
    have hji := (hnodup.getElem_inj_iff).mp (of_decide_eq_true heq)
    omega

/-- The position after a key. -/
private theorem moved_eq (n : Nat) (hn : 0 < n) (cursor : Option Nat) (delta : Int) :
    (if delta < 0 then Cursor.up n cursor else Cursor.down n cursor) =
      some (App.nextPosition cursor (n - 1) delta) := by
  cases cursor with
  | none =>
    rw [Cursor.up, Cursor.down, if_neg (Nat.ne_of_gt hn), if_neg (Nat.ne_of_gt hn),
      App.nextPosition]
    split <;> rfl
  | some index =>
    rw [Cursor.up, Cursor.down, App.nextPosition]
    split <;> rfl

/-- A key moves the cursor. -/
theorem At.moveSelection (h : At items app cursor) (hnodup : items.Nodup) (delta : Int) :
    At items (app.moveSelection delta)
      (if delta < 0 then Cursor.up items.length cursor else Cursor.down items.length cursor) := by
  have hcollected := h.displayed.collected hnodup
  have hlength : (App.selectable app.rows).length = items.length := by
    rw [← hcollected, List.length_map]
  have hvalid : Cursor.Valid items.length
      (if delta < 0 then Cursor.up items.length cursor else Cursor.down items.length cursor) := by
    split
    · exact h.valid.up
    · exact h.valid.down
  simp only [App.moveSelection]
  rw [h.current hnodup]
  by_cases hempty : (App.selectable app.rows).isEmpty = true
  · -- without items the cursor stays nowhere
    rw [if_pos hempty]
    have hnone : items = [] := by
      rw [← hcollected, List.isEmpty_iff.mp hempty]
      rfl
    refine ⟨h.displayed, hvalid, h.selected.trans ?_⟩
    rw [hnone]
    cases cursor <;> simp
  · rw [if_neg hempty]
    have hn : 0 < items.length := by
      rw [← hlength, List.length_pos_iff]
      exact fun hnil => hempty (by rw [hnil]; rfl)
    rw [moved_eq items.length hn cursor delta] at hvalid ⊢
    rw [hlength]
    -- Only the bound of the new position matters now
    generalize App.nextPosition cursor (items.length - 1) delta = next at hvalid ⊢
    have hnext := hvalid next rfl
    have hrow : (App.selectable app.rows)[next]?.map Prod.snd = items[next]? := by
      rw [← hcollected, List.getElem?_map]
    obtain ⟨⟨index, row⟩, hfound⟩ : ∃ found, (App.selectable app.rows)[next]? = some found :=
      ⟨_, List.getElem?_eq_getElem (hlength ▸ hnext)⟩
    rw [hfound] at hrow ⊢
    exact ⟨h.displayed, hvalid, hrow⟩

end Moves

/-! ## Runs -/

namespace Action

def isUp : Action → Bool
  | up => true
  | _ => false

def isDown : Action → Bool
  | down => true
  | _ => false

def isDraw : Action → Bool
  | draw _ => true
  | _ => false

/-- What an action does to the cursor. -/
def move (n : Nat) (cursor : Option Nat) : Action → Option Nat
  | up => Cursor.up n cursor
  | down => Cursor.down n cursor
  | draw _ => cursor

/-- A key puts the cursor on an item. -/
private theorem exists_move {n : Nat} (hn : 0 < n) (cursor : Option Nat) {key : Action}
    (hkey : key.isDraw = false) : ∃ i, key.move n cursor = some i := by
  cases key with
  | up => exact Cursor.exists_up hn cursor
  | down => exact Cursor.exists_down hn cursor
  | draw redraw => cases hkey

end Action

/-- What a sequence of actions does to the cursor. -/
def moves (n : Nat) (cursor : Option Nat) (actions : List Action) : Option Nat :=
  actions.foldl (Action.move n) cursor

/-- A run in two parts. -/
private theorem moves_append (n : Nat) (cursor : Option Nat) (actions actions' : List Action) :
    moves n cursor (actions ++ actions') = moves n (moves n cursor actions) actions' :=
  List.foldl_append

/-- Without the other key a run repeats one move. -/
private theorem moves_eq_iterate {n : Nat} {isKey : Action → Bool} {key : Option Nat → Option Nat}
    {actions : List Action}
    (h : ∀ action ∈ actions, ∀ cursor, Action.move n cursor action =
      if isKey action then key cursor else cursor) (cursor : Option Nat) :
    moves n cursor actions = key^[actions.countP isKey] cursor := by
  induction actions generalizing cursor with
  | nil => rfl
  | cons action actions ih =>
    obtain ⟨haction, hactions⟩ := List.forall_mem_cons.mp h
    rw [moves, List.foldl_cons, haction, ← moves, ih hactions]
    by_cases hkey : isKey action = true
    · rw [if_pos hkey, List.countP_cons_of_pos hkey, Function.iterate_succ_apply]
    · rw [if_neg hkey, List.countP_cons_of_neg hkey]

/-- Without the Up key a run is as many moves down as the Down key was pressed. -/
private theorem moves_down {n : Nat} {actions : List Action}
    (h : ∀ action ∈ actions, action.isUp = false)
    (cursor : Option Nat) :
    moves n cursor actions = (Cursor.down n)^[actions.countP Action.isDown] cursor := by
  refine moves_eq_iterate (fun action haction cursor => ?_) cursor
  have hup := h action haction
  cases action with
  | up => cases hup
  | down => rfl
  | draw redraw => rfl

/-- Without the Down key it is as many moves up. -/
private theorem moves_up {n : Nat} {actions : List Action}
    (h : ∀ action ∈ actions, action.isDown = false)
    (cursor : Option Nat) :
    moves n cursor actions = (Cursor.up n)^[actions.countP Action.isUp] cursor := by
  refine moves_eq_iterate (fun action haction cursor => ?_) cursor
  have hdown := h action haction
  cases action with
  | up => rfl
  | down => cases hdown
  | draw redraw => rfl

/-- Drawings do not move the cursor. -/
private theorem moves_draw {n : Nat} {actions : List Action}
    (h : ∀ action ∈ actions, action.isDraw = true)
    (cursor : Option Nat) : moves n cursor actions = cursor := by
  induction actions with
  | nil => rfl
  | cons action actions ih =>
    obtain ⟨haction, hactions⟩ := List.forall_mem_cons.mp h
    cases action with
    | up => cases haction
    | down => cases haction
    | draw redraw => exact ih hactions

/-- Two keys with drawings between them. -/
private theorem moves_keys {n : Nat} {actions between : List Action} {cursor : Option Nat}
    (hbetween : ∀ action ∈ between, action.isDraw = true) (key key' : Action) :
    moves n cursor (actions ++ key :: between ++ [key']) =
      key'.move n (key.move n (moves n cursor actions)) := by
  rw [moves_append, moves_append, ← List.singleton_append, moves_append, moves_draw hbetween]
  rfl

section Runs

variable (u : Unicode) (w : Format.DisplayWidth) (orders : ModelOrders)
  (steps : List (IterOrder DenialKey AggregatedDenial × Event)) (redraw : Redraw) (tab : Tab)

/-- The items of a tab. -/
def tabItems : List RowKind :=
  items (tabRows u w orders (ObservationModel.observeAll steps) redraw tab none)

/-- The items depend neither on the drawing nor on the selection. -/
private theorem items_tabRows (redraw' : Redraw) (selected : Option RowKind) :
    items (tabRows u w orders (ObservationModel.observeAll steps) redraw' tab selected) =
      tabItems u w orders steps redraw tab :=
  congrArg (List.filter RowKind.selectable) (kinds_tabRows u w orders steps _ _ tab _ _)

/-- No item of a tab is listed twice. -/
private theorem nodup_tabItems : (tabItems u w orders steps redraw tab).Nodup :=
  nodup_items_tabRows u w orders steps redraw tab none

variable {u w orders steps redraw tab} {app : App} {cursor : Option Nat}

/-- A drawing shows the items and leaves the selection. -/
theorem At.draw (hlist : app.tab ≠ .stats)
    (hvalid : Cursor.Valid (tabItems u w orders steps redraw app.tab).length cursor)
    (hselected : app.selected =
      cursor.bind fun i => (tabItems u w orders steps redraw app.tab)[i]?) (redraw' : Redraw) :
    At (tabItems u w orders steps redraw app.tab)
      (draw u w orders (ObservationModel.observeAll steps) app redraw') cursor := by
  rw [Tui.draw, if_neg hlist]
  exact ⟨⟨_, stretched_lines w _ _, items_tabRows u w orders steps redraw app.tab redraw' _⟩,
    hvalid, hselected⟩

/-- A key does not change the tab. -/
private theorem tab_moveSelection (delta : Int) : (app.moveSelection delta).tab = app.tab := by
  simp only [App.moveSelection]
  split
  · rfl
  · split <;> rfl

/-- After a key the selection is followed. -/
private theorem followSelection_moveSelection (delta : Int) :
    (app.moveSelection delta).followSelection = true := by
  simp only [App.moveSelection]
  split
  · rfl
  · split <;> rfl

/-- A drawing does not change the tab. -/
private theorem tab_draw (model : ObservationModel) (redraw : Redraw) :
    (draw u w orders model app redraw).tab = app.tab := by
  rw [Tui.draw]
  split <;> rfl

/-- Neither does any action. -/
private theorem tab_step (model : ObservationModel) (action : Action) :
    (app.step u w orders model action).tab = app.tab := by
  cases action with
  | up => exact tab_moveSelection _
  | down => exact tab_moveSelection _
  | draw redraw => exact tab_draw model redraw

/-- An action moves the cursor. -/
theorem At.step (htab : app.tab = tab) (hlist : tab ≠ .stats)
    (h : At (tabItems u w orders steps redraw tab) app cursor) (action : Action) :
    At (tabItems u w orders steps redraw tab)
      (app.step u w orders (ObservationModel.observeAll steps) action)
      (action.move (tabItems u w orders steps redraw tab).length cursor) := by
  have hnodup := nodup_tabItems u w orders steps redraw tab
  cases action with
  | up => exact h.moveSelection hnodup (-1)
  | down => exact h.moveSelection hnodup 1
  | draw redraw' =>
    subst htab
    exact .draw hlist h.valid h.selected redraw'

/-- So does a run. -/
theorem At.run (htab : app.tab = tab) (hlist : tab ≠ .stats)
    (h : At (tabItems u w orders steps redraw tab) app cursor) (actions : List Action) :
    At (tabItems u w orders steps redraw tab)
      (app.run u w orders (ObservationModel.observeAll steps) actions)
      (moves (tabItems u w orders steps redraw tab).length cursor actions) := by
  induction actions generalizing app cursor with
  | nil => exact h
  | cons action actions ih =>
    exact ih ((tab_step _ action).trans htab) (h.step htab hlist action)

end Runs

/-! ## Navigation -/

/-- What the keys do in a list of `items`, where `run` is the state after a sequence of keys and
    drawings that starts without a selection. -/
structure Navigates (items : List RowKind) (run : List Action → App) : Prop where
  nodup : items.Nodup
  displayed : ∀ actions, Displays items (run actions).rows
  /-- Down walks through the items and stays on the last. -/
  downs : ∀ actions k, (∀ action ∈ actions, action.isUp = false) →
    actions.countP Action.isDown = k + 1 →
    (run actions).selected = items[min k (items.length - 1)]?
  /-- Up walks through the items backwards and stays on the first. -/
  ups : ∀ actions k, (∀ action ∈ actions, action.isDown = false) →
    actions.countP Action.isUp = k + 1 →
    (run actions).selected = items[items.length - 1 - k]?
  /-- Up undoes Down, except at the last item. -/
  undoDown : ∀ actions between i, (∀ action ∈ between, action.isDraw = true) →
    i + 1 < items.length → (run actions).selected = items[i]? →
    (run (actions ++ .down :: between ++ [.up])).selected = items[i]?
  /-- Down undoes Up, except at the first item. -/
  undoUp : ∀ actions between i, (∀ action ∈ between, action.isDraw = true) →
    0 < i → i < items.length → (run actions).selected = items[i]? →
    (run (actions ++ .up :: between ++ [.down])).selected = items[i]?
  /-- Only items are selected, never a heading. -/
  selected_mem : ∀ actions, ∀ kind ∈ (run actions).selected,
    kind ∈ items ∧ kind ≠ .heading
  /-- A key leaves nothing unselected. -/
  selects : ∀ actions key, key.isDraw = false → items ≠ [] →
    (run (actions ++ [key])).selected ≠ none
  /-- After a key and a drawing the viewport is in the list. -/
  scroll_le : ∀ actions key redraw, key.isDraw = false →
    (run (actions ++ [key, .draw redraw])).scroll ≤
      (run (actions ++ [key, .draw redraw])).rows.length - redraw.area.visible
  /-- After a key and a drawing the first line of the selected item is in the viewport. -/
  inView : ∀ actions key redraw, key.isDraw = false → 0 < redraw.area.visible →
    ∀ kind ∈ (run (actions ++ [key, .draw redraw])).selected,
      ∃ index, (run (actions ++ [key, .draw redraw])).rows.findIdx? (· = kind) = some index ∧
        (run (actions ++ [key, .draw redraw])).scroll ≤ index ∧
        index < (run (actions ++ [key, .draw redraw])).scroll + redraw.area.visible

section Navigation

variable {u : Unicode} {w : Format.DisplayWidth} {orders : ModelOrders} {app : App}

/-- A run in two parts. -/
theorem run_append (model : ObservationModel) (actions actions' : List Action) :
    app.run u w orders model (actions ++ actions') =
      (app.run u w orders model actions).run u w orders model actions' :=
  List.foldl_append

/-- A run does not change the tab. -/
private theorem tab_run (model : ObservationModel) (actions : List Action) :
    (app.run u w orders model actions).tab = app.tab := by
  induction actions generalizing app with
  | nil => rfl
  | cons action actions ih => exact ih.trans (tab_step model action)

/-- A key and a drawing: the drawing follows the selection. -/
private theorem exists_drawList (model : ObservationModel) (hlist : app.tab ≠ .stats) {key : Action}
    (hkey : key.isDraw = false) (redraw : Redraw) :
    ∃ app' rows, app'.followSelection = true ∧
      app.run u w orders model [key, .draw redraw] = drawList w redraw.area app' rows := by
  have hfollow : (app.step u w orders model key).followSelection = true := by
    cases key with
    | up => exact followSelection_moveSelection _
    | down => exact followSelection_moveSelection _
    | draw redraw => cases hkey
  exact ⟨_, _, hfollow, if_neg ((tab_step model key).trans_ne hlist)⟩

/-- A run whose selection is under the cursor navigates. -/
private theorem navigates_of_at {items : List RowKind} {model : ObservationModel}
    (hnodup : items.Nodup) (hlist : app.tab ≠ .stats)
    (hat : ∀ actions, At items (app.run u w orders model actions)
      (moves items.length none actions)) :
    Navigates items (app.run u w orders model) where
  nodup := hnodup
  displayed actions := (hat actions).displayed
  downs actions k hups hcount := by
    rw [(hat actions).selected, moves_down hups, hcount]
    cases items with
    | nil => simp
    | cons kind items =>
      rw [Cursor.iterate_down (by simp)]
      rfl
  ups actions k hdowns hcount := by
    rw [(hat actions).selected, moves_up hdowns, hcount]
    cases items with
    | nil => simp
    | cons kind items =>
      rw [Cursor.iterate_up (by simp)]
      rfl
  -- The selected item gives the cursor back, since no item is listed twice
  undoDown actions between i hbetween hi hselected := by
    have hcursor := (hat actions).eq_some hnodup (Nat.lt_of_succ_lt hi) hselected
    rw [(hat _).selected, moves_keys hbetween, hcursor, Action.move, Action.move,
      Cursor.up_down hi]
    rfl
  undoUp actions between i hbetween hpos hi hselected := by
    have hcursor := (hat actions).eq_some hnodup hi hselected
    rw [(hat _).selected, moves_keys hbetween, hcursor, Action.move, Action.move,
      Cursor.down_up hi hpos]
    rfl
  selected_mem actions kind hkind := by
    have hmem := (hat actions).selected_mem hkind
    refine ⟨hmem, ?_⟩
    rintro rfl
    cases ((hat actions).displayed.mem_rows hmem).2
  selects actions key hkey hitems := by
    have hend := hat (actions ++ [key])
    rw [moves_append] at hend
    obtain ⟨i, hi⟩ := Action.exists_move (List.length_pos_iff.mpr hitems)
      (moves items.length none actions) hkey
    have hlt := hend.valid i hi
    rw [hend.selected, moves, List.foldl_cons, List.foldl_nil, hi, Option.bind_some,
      List.getElem?_eq_getElem hlt]
    exact Option.some_ne_none _
  -- The last two actions are a key, after which the selection is followed, and a drawing
  scroll_le actions key redraw hkey := by
    obtain ⟨app', rows, _, hdraw⟩ :=
      exists_drawList model ((tab_run model actions).trans_ne hlist) hkey redraw
    rw [run_append, hdraw]
    exact drawList_scroll_le w redraw.area app' rows
  inView actions key redraw hkey hvisible kind hkind := by
    have hend := hat (actions ++ [key, .draw redraw])
    have hrows := (hend.displayed.mem_rows (hend.selected_mem hkind)).1
    obtain ⟨app', rows, hfollow, hdraw⟩ :=
      exists_drawList model ((tab_run model actions).trans_ne hlist) hkey redraw
    rw [run_append, hdraw] at hkind hrows ⊢
    exact drawList_inView hfollow hvisible hkind hrows

end Navigation

/-- The keys walk through the items of a tab in both directions and keep the selected one in
    view, whatever is drawn in between. -/
theorem navigates_tab (u : Unicode) (w : Format.DisplayWidth) (orders : ModelOrders)
    (steps : List (IterOrder DenialKey AggregatedDenial × Event)) (app : App) (redraw : Redraw)
    (hlist : app.tab ≠ .stats) (hselected : app.selected = none) :
    Navigates (tabItems u w orders steps redraw app.tab)
      (App.run u w orders (ObservationModel.observeAll steps)
        (draw u w orders (ObservationModel.observeAll steps) app redraw)) := by
  have htab : (draw u w orders (ObservationModel.observeAll steps) app redraw).tab = app.tab :=
    tab_draw _ redraw
  -- The first drawing leaves nothing selected
  have hstart : At (tabItems u w orders steps redraw app.tab)
      (draw u w orders (ObservationModel.observeAll steps) app redraw) none := by
    refine At.draw hlist ?_ ?_ redraw
    · intro i hi
      cases hi
    · exact hselected
  exact navigates_of_at (nodup_tabItems u w orders steps redraw app.tab) (htab.trans_ne hlist)
    (hstart.run htab hlist)

/-- The rows of a single denial: its domain, its label and itself. -/
private theorem denialRows_of_retained {u : Unicode} {width : String → Nat}
    {model : ObservationModel}
    {selected : Option RowKind} {orders : DenialOrders} {entry : AggregatedDenial}
    (h : retained orders.entries model = [entry]) :
    denialRows u width model selected orders =
      [denialDomainRow u model selected entry.key.domainId,
        ⟨.heading, "  " ++ blockers entry, Theme.heading, none⟩,
        denialRow u width model selected entry] := by
  have hdomains : domainGroups orders model = [(entry.key.domainId, [entry])] := by
    rw [domainGroups, h, Grouping.groups_singleton, Grouping.sortBy_singleton]
  have hlabels : labelGroups (orders.groups entry.key.domainId) [entry] =
      [(blockers entry, [entry])] := by
    rw [labelGroups, Grouping.groups_singleton, Grouping.sortBy_singleton]
  rw [denialRows, hdomains, List.foldl_cons, List.foldl_nil, domainSection, hlabels,
    List.flatMap_singleton, groupRows, Grouping.sortBy_singleton]
  rfl

/-- A domain has denied an access. -/
noncomputable def denialSteps : List (IterOrder DenialKey AggregatedDenial × Event) :=
  [(default, .denyAccessFs ⟨⟨2⟩, ⟨default, 1, false, true⟩, ⟨1⟩, ⟨4⟩, 8, 3, default⟩)]

/-- A narrow terminal of 24 lines. -/
noncomputable def narrowRedraw : Redraw := ⟨⟨8, 24⟩, default, default, default⟩

/-- The list of the denials, drawn in a narrow terminal. -/
noncomputable def denialsApp : App :=
  draw .reference .ascii ⟨default, default, default⟩
    (ObservationModel.observeAll denialSteps) (App.new.setTab .denials) narrowRedraw

/-- A domain and its denial, with a label in between; the domain needs more than one line. -/
theorem navigates_tab_denials :
    ∃ key, tabItems .reference .ascii ⟨default, default, default⟩ denialSteps
          narrowRedraw .denials = [.denialDomain default, .denial key] ∧
      .heading ∈ denialsApp.rows ∧ 1 < denialsApp.rows.count (.denialDomain default) ∧
      Navigates
        (tabItems .reference .ascii ⟨default, default, default⟩ denialSteps
          narrowRedraw .denials)
        (App.run .reference .ascii ⟨default, default, default⟩
          (ObservationModel.observeAll denialSteps) denialsApp) := by
  obtain ⟨key, entry, hentries, hid⟩ : ∃ key entry,
      (ObservationModel.observeAll denialSteps).denials.entries = Finmap.singleton key entry ∧
        entry.key.domainId = default := ⟨_, _, rfl, rfl⟩
  have hretained : retained default (ObservationModel.observeAll denialSteps) = [entry] := by
    rw [retained, hentries, IterOrder.toList_singleton]
    rfl
  obtain ⟨domain, label, denial, hrows, hdomain, hlabel, hdenial, htext⟩ :
      ∃ domain label denial, tabRows .reference .ascii ⟨default, default, default⟩
          (ObservationModel.observeAll denialSteps) narrowRedraw .denials none =
            [domain, label, denial] ∧
        domain.kind = .denialDomain default ∧ label.kind = .heading ∧
        denial.kind = .denial entry.key ∧ 6 < domain.text.length := by
    refine ⟨_, _, _, denialRows_of_retained hretained, ?_, rfl, rfl, ?_⟩
    · rw [← hid]
      rfl
    · -- the text begins with the word for a domain
      have hword : "Domain ".length = 7 := by decide
      simp only [denialDomainRow, String.length_append, hword]
      omega
  -- The content of the list is six columns wide
  have hdrawn : denialsApp.rows = kinds (wrapRow .ascii 6 domain) ++
      (kinds (wrapRow .ascii 6 label) ++
        kinds (wrapRow .ascii 6 denial)) := by
    show kinds ((tabRows .reference .ascii ⟨default, default, default⟩
      (ObservationModel.observeAll denialSteps) narrowRedraw .denials none).flatMap
        (wrapRow .ascii 6)) = _
    rw [hrows, List.flatMap_cons, List.flatMap_cons, List.flatMap_singleton, kinds,
      List.map_append, List.map_append]
    rfl
  refine ⟨entry.key, ?_, ?_, ?_, navigates_tab .reference .ascii
    ⟨default, default, default⟩ denialSteps (App.new.setTab .denials) narrowRedraw (by decide) rfl⟩
  · rw [tabItems, hrows, items, kinds, List.map_cons, List.map_cons, List.map_singleton, hdomain,
      hlabel, hdenial]
    rfl
  · rw [hdrawn, kinds_wrapRow _ _ label, hlabel, List.mem_append, List.mem_append]
    refine .inr (.inl (List.mem_replicate.mpr ⟨?_, rfl⟩))
    exact fun hzero => wrapRow_ne_nil _ _ _ (List.length_eq_zero_iff.mp hzero)
  · rw [hdrawn, kinds_wrapRow _ _ domain, hdomain, List.count_append, List.count_replicate_self]
    exact Nat.lt_add_right _ (one_lt_length_wrapRow htext)

end Landlock.Tui
