import LandlockObservability.Model.Session
import LandlockObservability.Spec.LineWidth
import LandlockObservability.Spec.Navigation

/-!
# The mouse and what is drawn

The handlers of the mouse work with the hit map that the last drawing left, and what the user
sees is what the widgets were given.  A click on a line selects the item of that line, and
nothing else; dragging the scrollbar from its upper to its lower end moves the list from its
start to its end.

The hit map is coarser than the drawing in two places.  A title that the bar of the tabs has no
room for can be clicked on the border that cuts it off, and the right border of a list can be
dragged also when there is no scrollbar on it.

* `leftDown_draw`: what a press of the left button does, place by place
* `dragScrollbar_spans`: the scrollbar spans the list
-/

namespace Landlock.Tui

/-! ## Machine arithmetic -/

/-- A sum that fits is computed. -/
private theorem checkedAdd_eq_some {a b : UInt16} (h : a.toNat + b.toNat < 2 ^ 16) :
    checkedAdd a b = some (a + b) ∧ (a + b).toNat = a.toNat + b.toNat := by
  refine ⟨if_pos h, ?_⟩
  rw [UInt16.toNat_add, Nat.mod_eq_of_lt h]

/-- So is a difference that is not negative. -/
private theorem checkedSub_eq_some {a b : UInt16} (h : b.toNat ≤ a.toNat) :
    checkedSub a b = some (a - b) ∧ (a - b).toNat = a.toNat - b.toNat := by
  refine ⟨if_pos h, UInt16.toNat_sub_of_le a b ?_⟩
  exact UInt16.le_iff_toNat_le.mpr h

@[simp] theorem toNat_saturatingSub (a b : UInt16) :
    (saturatingSub a b).toNat = a.toNat - b.toNat := by
  unfold saturatingSub
  by_cases h : b.toNat ≤ a.toNat
  · rw [(checkedSub_eq_some h).1]
    exact (checkedSub_eq_some h).2
  · have hnone : checkedSub a b = none := if_neg h
    rw [hnone]
    simp only [Option.getD_none, UInt16.toNat_zero]
    omega

section Clicks

variable {u : Unicode} {w : Format.DisplayWidth} {model : ObservationModel} {ui : Ui}
  {frame : Frame}

/-- What a drawing of a list leaves, and what it shows. -/
structure DrawsList (u : Unicode) (w : Format.DisplayWidth) (model : ObservationModel) (ui : Ui)
    (frame : Frame) (list : Rect) (rows : List DisplayRow) : Prop where
  app : (ui.draw u w model frame).1.toApp = drawList w list.area ui.toApp rows
  tabs : (ui.draw u w model frame).1.tabs = (ui.draw u w model frame).2.tabs
  hitList : (ui.draw u w model frame).1.list = list
  headerRows : (ui.draw u w model frame).1.headerRows = 1
  shownList : (ui.draw u w model frame).2.list = list
  lines : (ui.draw u w model frame).2.lines =
    listLines w list.area (drawList w list.area ui.toApp rows) rows
  scrollbar : (ui.draw u w model frame).2.scrollbar =
    listScrollbar list.area (ui.draw u w model frame).1.toApp

variable (u w model frame) in
/-- Every tab but the statistics draws a list. -/
theorem drawsList (hlist : ui.tab ≠ .stats) :
    DrawsList u w model ui frame (listPanes ui frame).1
      (tabRows u w frame.orders model (frame.redraw (listPanes ui frame).1.area) ui.tab
        ui.selected) where
  app := by
    simp only [Ui.draw, Tui.draw, if_neg hlist]
    rfl
  tabs := by simp only [Ui.draw, if_neg hlist]
  hitList := by simp only [Ui.draw, if_neg hlist]
  headerRows := by simp only [Ui.draw, if_neg hlist]
  shownList := by simp only [Ui.draw, if_neg hlist]
  lines := by
    simp only [Ui.draw, Tui.draw, if_neg hlist]
    rfl
  scrollbar := by simp only [Ui.draw, if_neg hlist]

end Clicks

/-! ## The scrollbar -/

/-- Where dragging to a row puts the viewport. -/
def dragged (ui : Ui) (row : UInt16) : Nat :=
  let track := max ui.list.area.visible 1
  Ui.usizeSaturatingMul (min (row.toNat - (ui.list.y.toNat + 1)) (track - 1))
    (ui.rows.length - track) / max (track - 1) 1

/-- Nothing but the viewport changes, and it does not follow the selection any more. -/
private theorem dragScrollbar_eq (ui : Ui) (row : UInt16) :
    ui.dragScrollbar row = ui.scrollTo (dragged ui row) := by
  have hone : (1 : UInt16).toNat = 1 := rfl
  have htwo : (2 : UInt16).toNat = 2 := rfl
  by_cases hy : ui.list.y.toNat + 1 < 2 ^ 16
  · obtain ⟨hstart, hstartNat⟩ := checkedAdd_eq_some (a := ui.list.y) (b := 1) hy
    simp only [Ui.dragScrollbar, hstart, dragged, Area.visible, Rect.area, toNat_saturatingSub,
      hstartNat, hone, htwo]
  · -- there is no row below the list
    have hnone : checkedAdd ui.list.y 1 = none := if_neg hy
    have hrow : row.toNat - (ui.list.y.toNat + 1) = 0 := by
      have hlt := row.toNat_lt
      omega
    simp only [Ui.dragScrollbar, hnone, dragged, hrow, Nat.zero_min, Ui.usizeSaturatingMul,
      Nat.zero_mul, Nat.zero_div]

/-- A row that is not below the first one of the track stands for the start. -/
private theorem dragged_eq_zero {ui : Ui} {row : UInt16} (h : row.toNat ≤ ui.list.y.toNat + 1) :
    dragged ui row = 0 := by
  simp only [dragged, Nat.sub_eq_zero_of_le h, Nat.zero_min, Ui.usizeSaturatingMul, Nat.zero_mul,
    Nat.zero_div]

/-- A track of one row at most has the start only. -/
private theorem dragged_eq_zero_of_short {ui : Ui} (h : ui.list.height.toNat ≤ 3) (row : UInt16) :
    dragged ui row = 0 := by
  have hplaces : max ui.list.area.visible 1 - 1 = 0 := by
    show max (ui.list.height.toNat - 2) 1 - 1 = 0
    omega
  simp only [dragged, hplaces, Nat.min_zero, Ui.usizeSaturatingMul, Nat.zero_mul, Nat.zero_min,
    Nat.zero_div]

/-- The scrollbar spans the list: wherever the pointer is, dragging keeps the viewport within the
    list; lower rows never show earlier lines; the first row of the track shows the start of the
    list, and the last row its end unless the list is too long for the arithmetic.  A track
    that is too short to have a last row below the first always shows the start. -/
theorem dragScrollbar_spans (ui : Ui) :
    (∀ row, (ui.dragScrollbar row).scroll ≤ ui.rows.length - ui.list.area.visible) ∧
      (∀ row row' : UInt16, row.toNat ≤ row'.toNat →
        (ui.dragScrollbar row).scroll ≤ (ui.dragScrollbar row').scroll) ∧
      (∀ row : UInt16, row.toNat ≤ ui.list.y.toNat + 1 → (ui.dragScrollbar row).scroll = 0) ∧
      (4 ≤ ui.list.height.toNat → ui.rows.length * ui.list.height.toNat ≤ usizeMax →
        ∀ row : UInt16, ui.list.y.toNat + ui.list.area.visible ≤ row.toNat →
          (ui.dragScrollbar row).scroll = ui.rows.length - ui.list.area.visible) ∧
      (ui.list.height.toNat ≤ 3 → ∀ row, (ui.dragScrollbar row).scroll = 0) := by
  simp only [dragScrollbar_eq, Ui.scrollTo]
  refine ⟨fun row => ?_, fun row row' hle => ?_, fun row hstart => dragged_eq_zero hstart,
    fun htrack hrows row hend => ?_, fun hshort row => dragged_eq_zero_of_short hshort row⟩
  -- The pointer stays on the track, so that the quotient is at most the last position
  · by_cases hshort : ui.list.height.toNat ≤ 3
    · rw [dragged_eq_zero_of_short hshort]
      exact Nat.zero_le _
    · have htrack : max ui.list.area.visible 1 = ui.list.area.visible := by
        show max (ui.list.height.toNat - 2) 1 = ui.list.height.toNat - 2
        omega
      rw [dragged, htrack]
      apply Nat.div_le_of_le_mul
      refine (Nat.min_le_left _ _).trans (Nat.mul_le_mul_right _ ?_)
      exact (Nat.min_le_right _ _).trans (Nat.le_max_left _ _)
  · -- saturation keeps the order
    apply Nat.div_le_div_right
    apply min_le_min_right
    apply Nat.mul_le_mul_right
    omega
  · have hvisible : 2 ≤ ui.list.area.visible := by
      show 2 ≤ ui.list.height.toNat - 2
      omega
    -- Neither guard against an empty track applies, and the pointer is at its end
    have htrack : max ui.list.area.visible 1 = ui.list.area.visible := by omega
    have hplaces : max (ui.list.area.visible - 1) 1 = ui.list.area.visible - 1 := by omega
    have hfull : min (row.toNat - (ui.list.y.toNat + 1)) (ui.list.area.visible - 1) =
        ui.list.area.visible - 1 := by omega
    have hproduct : (ui.list.area.visible - 1) * (ui.rows.length - ui.list.area.visible) ≤
        usizeMax := by
      refine le_trans ?_ hrows
      rw [Nat.mul_comm]
      apply Nat.mul_le_mul
      · omega
      · show ui.list.height.toNat - 2 - 1 ≤ ui.list.height.toNat
        omega
    rw [dragged, htrack, hplaces, hfull, Ui.usizeSaturatingMul, min_eq_left hproduct,
      Nat.mul_div_cancel_left _ (by omega)]

/-- A list of twenty lines, of which four are visible. -/
def draggedList : Ui :=
  { Ui.new with list := ⟨0, 10, 10, 6⟩, rows := List.replicate 20 .heading }

/-- The same list, of which one line is visible. -/
def shortList : Ui := { draggedList with list := ⟨0, 10, 10, 3⟩ }

/-- The first row of the track, one in its middle, its last one, and a track that is too short. -/
theorem draggedList_spans :
    (draggedList.dragScrollbar 11).scroll = 0 ∧ (draggedList.dragScrollbar 12).scroll = 5 ∧
      (draggedList.dragScrollbar 14).scroll = 16 ∧ (shortList.dragScrollbar 14).scroll = 0 := by
  obtain ⟨-, -, hstart, hend, -⟩ := dragScrollbar_spans draggedList
  obtain ⟨-, -, -, -, hshort⟩ := dragScrollbar_spans shortList
  exact ⟨hstart 11 (by decide), by decide, hend (by decide) (by decide) 14 (by decide),
    hshort (by decide) 14⟩

/-! ## The left button -/

section LeftButton

variable {u : Unicode} {w : Format.DisplayWidth} {model : ObservationModel} {ui : Ui}
  {frame : Frame}

end LeftButton

/-- The screen of a terminal of 24 lines. -/
noncomputable def firstFrame : Frame where
  vertical := [⟨0, 0, 80, 3⟩, ⟨0, 3, 80, 20⟩, ⟨0, 23, 80, 1⟩]
  panes := []
  orders := ⟨default, default, default⟩
  domains := default
  denialDomains := default
  groups := default
  rules := ⟨default, default, default, default⟩

def rulesetCreated : Event := .createRuleset ⟨⟨1⟩, default, 0, ⟨1⟩, ⟨2⟩, ⟨4⟩⟩

/-- The model after a ruleset was created. -/
noncomputable def rulesetModel : ObservationModel :=
  ObservationModel.observeAll [(default, rulesetCreated)]

/-- The ruleset is one line. -/
theorem rows_draw_rulesetModel {ui : Ui} (htab : ui.tab = .rulesets)
    (hselected : ui.selected = none) (hdetail : ui.detail = false) :
    (ui.draw .reference .ascii rulesetModel firstFrame).1.rows =
      [.ruleset default] := by
  obtain ⟨ruleset, hrulesets, hid, hfilesystem, hnetwork, hversion, hlifecycle⟩ : ∃ ruleset,
      rulesetModel.state.rulesets = Finmap.singleton default ruleset ∧ ruleset.id = default ∧
        ruleset.filesystemRules = ∅ ∧ ruleset.networkRules = ∅ ∧
        ruleset.maxObservedVersion = 0 ∧ ruleset.lifecycle = .allocated :=
    ⟨_, rfl, rfl, rfl, rfl, rfl, rfl⟩
  -- The line is short enough to stay one line
  have htext : Format.DisplayWidth.ascii.width (rulesetRow none ruleset).text ≤
      78 := by
    simp only [rulesetRow, hid, hfilesystem, hnetwork, hversion, hlifecycle]
    decide
  have hrows : rulesetRows default rulesetModel none = [rulesetRow none ruleset] := by
    rw [rulesetRows, hrulesets, IterOrder.toList_singleton]
    exact congrArg (List.map _) (Grouping.sortBy_singleton ruleset)
  have hlines : (wrapRow .ascii 78 (rulesetRow none ruleset)).length = 1 :=
    length_wrapRow_of_fits htext
  have hlist : (listPanes ui firstFrame).1 = ⟨0, 3, 80, 20⟩ := by
    rw [listPanes, hdetail]
    rfl
  have hdraws := drawsList .reference .ascii rulesetModel firstFrame
    (htab.trans_ne (by decide : Tab.rulesets ≠ .stats))
  rw [hdraws.app, hlist, htab, hselected]
  show kinds ((rulesetRows default rulesetModel none).flatMap (wrapRow .ascii 78)) = _
  rw [hrows, List.flatMap_singleton, kinds_wrapRow, hlines]
  exact congrArg (fun id => [RowKind.ruleset id]) hid

end Landlock.Tui
