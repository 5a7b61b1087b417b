import LandlockObservability.Model.Batch
import Mathlib.Algebra.GroupWithZero.Nat

/-!
# Text wrapping

Models `format::wrap` in `lltop/src/tui/format.rs`.  A text is the list of its characters;
positions are byte offsets as in the source, so that slicing can fail between the bytes of a
character.

The width of a text on the screen is measured by a library.  All that is assumed of the measure
is that the empty text has width zero, without which the loop would not end.
-/

namespace Landlock.Tui.Format

/-- `format::display_width`. -/
structure DisplayWidth where
  width : String → Nat
  width_empty : width "" = 0

/-- The width of printable ASCII, a column a character. -/
def DisplayWidth.ascii : DisplayWidth := ⟨String.length, rfl⟩

/-- `usize::saturating_add`. -/
def usizeSaturatingAdd (a b : Nat) : Nat := min (a + b) usizeMax

/-- `str::len`. -/
def byteLen (text : List Char) : Nat := (text.map Char.utf8Size).sum

/-- `str::split_at_checked`: the parts of a text before and after a byte offset that is a
    character boundary. -/
def splitAtChecked : List Char → Nat → Option (List Char × List Char)
  | text, 0 => some ([], text)
  | [], _ + 1 => none
  | c :: text, n + 1 =>
    if c.utf8Size ≤ n + 1 then
      (splitAtChecked text (n + 1 - c.utf8Size)).map fun parts => (c :: parts.1, parts.2)
    else
      none

/-- The byte offset of the last suffix with a property. -/
def rfind (property : List Char → Bool) : List Char → Option Nat
  | [] => none
  | c :: text =>
    match rfind property text with
    | some index => some (c.utf8Size + index)
    | none => if property (c :: text) then some 0 else none

/-- `str::rfind` with a text. -/
def rfindText (pattern : List Char) (text : List Char) : Option Nat :=
  rfind (fun suffix => pattern.isPrefixOf suffix) text

section

variable (w : DisplayWidth)

/-- The `for` loop of `wrap` over the characters from `index` on; the result is `byte_limit`. -/
def scan (len width : Nat) : List Char → (index usedWidth byteLimit : Nat) → Nat
  | [], _, _, byteLimit => byteLimit
  | c :: text, index, usedWidth, byteLimit =>
    let characterWidth := w.width (String.singleton c)
    let characterEnd := min (usizeSaturatingAdd index c.utf8Size) len
    if width < usizeSaturatingAdd usedWidth characterWidth then
      -- The first character is taken, however wide it is
      if byteLimit = 0 then characterEnd else byteLimit
    else
      scan len width text (index + c.utf8Size) (usizeSaturatingAdd usedWidth characterWidth)
        characterEnd

/-- `byte_limit` of a line. -/
def byteLimit (width : Nat) (remaining : List Char) : Nat :=
  scan w (byteLen remaining) width remaining 0 0 0

/-- The preferred position after a separator in the part of the line that fits.  `checked_add`
    cannot fail: the position is at most the length of that part. -/
def separatorSplit (candidate : List Char) : Option Nat :=
  -- A comma with its space, then a slash, then a space
  (((rfindText [',', ' '] candidate).map (· + 2)).or
    (((rfindText ['/'] candidate).map (· + 1)).or
      ((rfindText [' '] candidate).map (· + 1)))).filter (· ≠ 0)

/-- `split`: where a line ends. -/
def lineSplit (width : Nat) (remaining : List Char) : Nat :=
  let byteLimit := byteLimit w width remaining
  -- A limit inside a character would leave the whole rest
  let candidate := ((splitAtChecked remaining byteLimit).map Prod.fst).getD remaining
  (separatorSplit candidate).getD byteLimit

/-- A line and the rest. -/
def takeLine (width : Nat) (remaining : List Char) : List Char × List Char :=
  (splitAtChecked remaining (lineSplit w width remaining)).getD (remaining, [])

end

/-! ## Termination -/

/-- Every character takes a byte. -/
theorem byteLen_pos {text : List Char} (h : text ≠ []) : 0 < byteLen text := by
  cases text with
  | nil => exact absurd rfl h
  | cons c text =>
    have hpos := c.utf8Size_pos
    rw [byteLen, List.map_cons, List.sum_cons]
    omega

/-- Once a character is taken, the limit is not zero. -/
private theorem scan_pos (w : DisplayWidth) {len width : Nat} (hlen : 0 < len) (text : List Char)
    (index usedWidth byteLimit : Nat) (h : text ≠ [] ∨ 0 < byteLimit) :
    0 < scan w len width text index usedWidth byteLimit := by
  induction text generalizing index usedWidth byteLimit with
  | nil => exact h.resolve_left fun hne => hne rfl
  | cons c text ih =>
    have hsize := c.utf8Size_pos
    -- The end of the first character, also if the sum saturates
    have hend : 0 < min (usizeSaturatingAdd index c.utf8Size) len := by
      have husize : 0 < usizeMax := by decide
      rw [usizeSaturatingAdd]
      omega
    rw [scan]
    split
    · split
      · exact hend
      · omega
    · exact ih _ _ _ (.inr hend)

/-- A line takes a character. -/
theorem lineSplit_pos (w : DisplayWidth) {width : Nat} {remaining : List Char}
    (h : remaining ≠ []) : 0 < lineSplit w width remaining := by
  rw [lineSplit]
  cases hsplit : separatorSplit _ with
  | none => exact scan_pos w (byteLen_pos h) remaining 0 0 0 (.inl h)
  | some index =>
    have hne := (Option.filter_eq_some_iff.mp hsplit).2
    rw [decide_eq_true_eq] at hne
    exact Nat.pos_of_ne_zero hne

/-- A split at a positive offset takes a character. -/
private theorem length_of_splitAtChecked {text : List Char} {n : Nat}
    {parts : List Char × List Char}
    (h : splitAtChecked text n = some parts) (hn : 0 < n) : parts.2.length < text.length := by
  induction text generalizing n parts with
  | nil =>
    obtain ⟨m, rfl⟩ := Nat.exists_eq_succ_of_ne_zero (Nat.ne_of_gt hn)
    cases h
  | cons c text ih =>
    obtain ⟨m, rfl⟩ := Nat.exists_eq_succ_of_ne_zero (Nat.ne_of_gt hn)
    rw [splitAtChecked] at h
    split at h
    · obtain ⟨rest, hrest, rfl⟩ := Option.map_eq_some_iff.mp h
      rw [List.length_cons]
      -- The split is behind the first character or further on
      by_cases hzero : m + 1 - c.utf8Size = 0
      · rw [hzero, splitAtChecked] at hrest
        cases hrest
        exact Nat.lt_succ_self _
      · have hlt := ih hrest (Nat.pos_of_ne_zero hzero)
        exact Nat.lt_succ_of_lt hlt
    · cases h

/-- The rest after a line is shorter. -/
theorem length_takeLine (w : DisplayWidth) {width : Nat} {remaining : List Char}
    (h : remaining ≠ []) : (takeLine w width remaining).2.length < remaining.length := by
  rw [takeLine]
  cases hsplit : splitAtChecked remaining (lineSplit w width remaining) with
  | none => exact List.length_pos_iff.mpr h
  | some parts => exact length_of_splitAtChecked hsplit (lineSplit_pos w h)

/-! ## The loop -/

/-- The `while` loop of `wrap`. -/
def wrapLoop (w : DisplayWidth) (continuationWidth width : Nat) (remaining : List Char)
    (output : List String) : List String :=
  if width < w.width (String.ofList remaining) then
    let line := takeLine w width remaining
    -- From the second line on, the width is another one
    wrapLoop w continuationWidth (max continuationWidth 1) line.2
      (output ++ [String.ofList line.1])
  else
    output ++ [String.ofList remaining]
termination_by remaining.length
decreasing_by
  refine length_takeLine w ?_
  rintro rfl
  rename_i hwidth
  rw [show String.ofList [] = "" from rfl, w.width_empty] at hwidth
  omega

/-- `format::wrap`. -/
def wrap (w : DisplayWidth) (text : String) (firstWidth continuationWidth : Nat) : List String :=
  if text = "" then [""]
  else wrapLoop w continuationWidth (max firstWidth 1) text.toList []

/-- The loop adds a line at least. -/
private theorem length_lt_wrapLoop (w : DisplayWidth) (continuationWidth width : Nat)
    (remaining : List Char) (output : List String) :
    output.length < (wrapLoop w continuationWidth width remaining output).length := by
  induction width, remaining, output using wrapLoop.induct w continuationWidth with
  | case1 width remaining output hwidth line ih =>
    rw [wrapLoop, if_pos hwidth]
    refine lt_trans ?_ ih
    rw [List.length_append]
    exact Nat.lt_succ_self _
  | case2 width remaining output hwidth =>
    rw [wrapLoop, if_neg hwidth, List.length_append]
    exact Nat.lt_succ_self _

/-- There is at least one line. -/
theorem wrap_ne_nil (w : DisplayWidth) (text : String) (firstWidth continuationWidth : Nat) :
    wrap w text firstWidth continuationWidth ≠ [] := by
  rw [wrap]
  split
  · exact List.cons_ne_nil _ _
  · exact List.ne_nil_of_length_pos (length_lt_wrapLoop w _ _ _ [])

/-- A text that is too wide has more than one line. -/
theorem one_lt_length_wrap {w : DisplayWidth} {text : String} {firstWidth : Nat}
    (h : max firstWidth 1 < w.width text) (continuationWidth : Nat) :
    1 < (wrap w text firstWidth continuationWidth).length := by
  have htext : text ≠ "" := by
    rintro rfl
    rw [w.width_empty] at h
    omega
  rw [wrap, if_neg htext, wrapLoop, String.ofList_toList, if_pos h]
  exact length_lt_wrapLoop w _ _ _ [_]

end Landlock.Tui.Format
