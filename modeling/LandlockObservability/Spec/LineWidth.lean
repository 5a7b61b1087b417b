import LandlockObservability.Model.Navigation
import LandlockObservability.Spec.TextWrap

/-!
# When wrapped lines fit

The loop of `wrap` goes on while the width of the rest, measured as a whole, is too large.  A line
is cut where the widths of its characters, measured one by one, add up to the width.  The lines
of a text fit if the text does, or if every part of it that can be a line fits where its
characters do; the latter is necessary, too, for the text and its parts together
(`wrap_fits_iff`).  The lines that `draw_list` shows, which have an indentation, then fit as well
(`width_wrapRow_le`).
-/

namespace Landlock.Tui

namespace Format

/-- The width for a line of the output. -/
def lineWidth (firstWidth continuationWidth index : Nat) : Nat :=
  max (if index = 0 then firstWidth else continuationWidth) 1

/-- Every line of more than one character fits. -/
def Fits (w : DisplayWidth) (firstWidth continuationWidth : Nat) (lines : List String) : Prop :=
  ∀ i line, lines[i]? = some line → 1 < line.length →
    w.width line ≤ lineWidth firstWidth continuationWidth i

/-- A text of more than one character that `wrap` would not split before its end fits a width
    if its characters do, measured one by one. -/
def LineFits (w : DisplayWidth) (width : Nat) (line : List Char) : Prop :=
  1 < line.length → Unbroken line → characterWidths w line ≤ width →
    w.width (String.ofList line) ≤ width

/-- The parts of a text that can be its first line, and those that can be another one. -/
structure PartsFit (w : DisplayWidth) (firstWidth continuationWidth : Nat) (text : List Char) :
    Prop where
  first : ∀ line, line <+: text → LineFits w (max firstWidth 1) line
  continuation : ∀ line, line <:+: text → LineFits w (max continuationWidth 1) line

section Fits

variable {w : DisplayWidth} {firstWidth continuationWidth : Nat}

/-- One more line that fits. -/
theorem Fits.concat {lines : List String} {line : String}
    (h : Fits w firstWidth continuationWidth lines)
    (hline : 1 < line.length → w.width line ≤ lineWidth firstWidth continuationWidth lines.length) :
    Fits w firstWidth continuationWidth (lines ++ [line]) := by
  intro i line' hi hlong
  rcases Nat.lt_trichotomy i lines.length with hlt | rfl | hgt
  · rw [List.getElem?_append_left hlt] at hi
    exact h i line' hi hlong
  · rw [List.getElem?_concat_length] at hi
    cases hi
    exact hline hlong
  · rw [List.getElem?_eq_none (by rw [List.length_append]; exact hgt)] at hi
    cases hi

/-- The measure has results in `usize`, and so has the width while the loop goes on: the sum of
    the widths of a line does not saturate. -/
private theorem Cut.width_le {width : Nat} {remaining line rest : List Char}
    (h : Cut w width remaining line rest) (hlong : 1 < line.length) (hfits : LineFits w width line)
    (hmax : width < usizeMax) : w.width (String.ofList line) ≤ width := by
  have hused := h.fits.resolve_left (Nat.not_le_of_lt hlong)
  refine hfits hlong h.unbroken ?_
  rw [usedWidth] at hused
  omega

/-- A part at the start of a text has no more parts than the text. -/
private theorem PartsFit.of_prefix {text part : List Char}
    (h : PartsFit w firstWidth continuationWidth text) (hpart : part <+: text) :
    PartsFit w firstWidth continuationWidth part where
  first := fun line hline => h.first line (hline.trans hpart)
  continuation := fun line hline => h.continuation line (hline.trans hpart.isInfix)

/-- A part anywhere is wrapped like the lines after the first one. -/
private theorem PartsFit.of_infix {text part : List Char}
    (h : PartsFit w firstWidth continuationWidth text) (hpart : part <:+: text) :
    PartsFit w continuationWidth continuationWidth part where
  first := fun line hline => h.continuation line (hline.isInfix.trans hpart)
  continuation := fun line hline => h.continuation line (hline.trans hpart)

/-- What is cut off next can be a line of the text, in the width that it is cut for. -/
theorem PartsFit.next {text : String} {s : Wrapping}
    (h : PartsFit w firstWidth continuationWidth text.toList) (hof : s.Of text) {line : List Char}
    (hline : line <+: s.remaining) :
    LineFits w (lineWidth firstWidth continuationWidth s.output.length) line := by
  have htext := congrArg String.toList hof.text
  rw [String.toList_append, String.toList_ofList] at htext
  rw [lineWidth]
  cases houtput : s.output with
  | nil =>
    -- Nothing has been cut off yet
    rw [houtput] at htext
    simp only [String.join_nil, String.toList_empty, List.nil_append] at htext
    rw [htext] at hline
    exact h.first line hline
  | cons first rest =>
    obtain ⟨tail, htail⟩ := hline
    refine h.continuation line ⟨(String.join s.output).toList, tail, ?_⟩
    rw [List.append_assoc, htail, htext]

/-- The width of the next line, and that the lines so far fit. -/
structure Wrapping.Fitting (w : DisplayWidth) (firstWidth continuationWidth : Nat)
    (s : Wrapping) : Prop where
  width : s.width = lineWidth firstWidth continuationWidth s.output.length
  lines : Fits w firstWidth continuationWidth s.output

/-- A round of the loop adds a line that fits. -/
theorem Wrapping.Fitting.round {text : String} {s s' : Wrapping}
    (h : s.Fitting w firstWidth continuationWidth) (hof : s.Of text)
    (hw : ∀ text, w.width text ≤ usizeMax) (htext : text.utf8ByteSize ≤ usizeMax)
    (hparts : PartsFit w firstWidth continuationWidth text.toList)
    (hround : wrapRound w continuationWidth s = .inl s') :
    s'.Fitting w firstWidth continuationWidth := by
  obtain ⟨hwidth, rfl⟩ := wrapRound_eq_inl w continuationWidth hround
  obtain ⟨line, rest, hcut⟩ := exists_cut w s.width (hof.byteLen_le htext)
  have hfits := hparts.next hof (hcut.text ▸ List.prefix_append line rest)
  rw [← h.width] at hfits
  rw [hcut.takeLine_eq]
  constructor
  · -- the width was set for the lines after the first one
    rw [lineWidth, if_neg (by rw [List.length_append]; exact Nat.succ_ne_zero _)]
  · refine h.lines.concat fun hlong => ?_
    rw [String.length_ofList] at hlong
    rw [← h.width]
    exact hcut.width_le hlong hfits (Nat.lt_of_lt_of_le hwidth (hw _))

/-- The lines of a text fit, if the parts of the text do. -/
private theorem fits_wrap {text : String} (hw : ∀ text, w.width text ≤ usizeMax)
    (htext : text.utf8ByteSize ≤ usizeMax)
    (hparts : PartsFit w firstWidth continuationWidth text.toList) :
    Fits w firstWidth continuationWidth (wrap w text firstWidth continuationWidth) := by
  obtain ⟨n, s, hafter, hlast, hlines⟩ := exists_after_of_wrap w text firstWidth continuationWidth
  have hfitting : s.Of text ∧ s.Fitting w firstWidth continuationWidth := by
    refine hafter.invariant
      (I := fun _ s => s.Of text ∧ s.Fitting w firstWidth continuationWidth) ?_ ?_
    · rintro _ t u ⟨hof, hfitting⟩ hround
      exact ⟨hof.round hround, hfitting.round hof hw htext hparts hround⟩
    · exact ⟨.start firstWidth text, rfl, fun i line hi => by cases hi⟩
  -- The loop ends only when the last line fits
  rw [hlines]
  refine hfitting.2.lines.concat fun _ => ?_
  rw [← hfitting.2.width]
  exact hlast

/-- A text that fits is one line. -/
private theorem wrap_eq_of_fits {text : String} (continuationWidth : Nat)
    (h : w.width text ≤ max firstWidth 1) : wrap w text firstWidth continuationWidth = [text] := by
  rw [wrap]
  split
  · rename_i hempty
    rw [hempty]
  · rw [wrapLoop, String.ofList_toList, if_neg (Nat.not_lt_of_le h)]
    rfl

/-- A text whose characters fit is one line, however wide it is, unless it has a separator. -/
private theorem wrap_eq_of_wide {text : String} (continuationWidth : Nat)
    (htext : text.utf8ByteSize ≤ usizeMax) (hunbroken : Unbroken text.toList)
    (hfits : characterWidths w text.toList ≤ max firstWidth 1)
    (hwide : max firstWidth 1 < w.width text) :
    wrap w text firstWidth continuationWidth = [text, ""] := by
  have hlen : byteLen text.toList ≤ usizeMax := by
    rwa [← utf8ByteSize_eq_byteLen, String.ofList_toList]
  -- The scan gets to the end of the text
  have hlimit : byteLimit w (max firstWidth 1) text.toList = byteLen text.toList := by
    obtain ⟨a, b, hab, hlimit, -, rfl | hover⟩ := exists_byteLimit w (max firstWidth 1) hlen
    · rw [hlimit, hab, List.append_nil]
    · rw [usedWidth] at hover
      omega
  have hwhole := splitAtChecked_byteLen text.toList []
  rw [List.append_nil] at hwhole
  have hsplit : lineSplit w (max firstWidth 1) text.toList = byteLen text.toList := by
    rw [lineSplit, hlimit, hwhole]
    cases hseparator : separatorSplit text.toList with
    | none => simp [hseparator]
    | some n => simp [hseparator, hunbroken n hseparator]
  have hline : takeLine w (max firstWidth 1) text.toList = (text.toList, []) := by
    rw [takeLine, hsplit, hwhole]
    rfl
  have hne : text ≠ "" := by
    rintro rfl
    rw [w.width_empty] at hwide
    exact Nat.not_lt_zero _ hwide
  rw [wrap, if_neg hne, wrapLoop, if_pos (by rwa [String.ofList_toList]), hline, wrapLoop,
    if_neg (by simp [w.width_empty]), String.ofList_toList]
  rfl

/-- A text whose lines fit is a line that fits. -/
private theorem lineFits_of_fits_wrap {line : List Char} {continuationWidth : Nat}
    (hline : byteLen line ≤ usizeMax)
    (h : Fits w firstWidth continuationWidth
      (wrap w (String.ofList line) firstWidth continuationWidth)) :
    LineFits w (max firstWidth 1) line := by
  intro hlong hunbroken hcharacters
  -- Otherwise it is wrapped as a whole
  by_contra hwide
  have hlines : wrap w (String.ofList line) firstWidth continuationWidth =
      [String.ofList line, ""] :=
    wrap_eq_of_wide continuationWidth (by rwa [utf8ByteSize_eq_byteLen])
      (by rwa [String.toList_ofList]) (by rwa [String.toList_ofList]) (Nat.lt_of_not_le hwide)
  have hfirst := h 0 (String.ofList line) (by rw [hlines]; rfl) (by rwa [String.length_ofList])
  exact hwide hfirst

end Fits

/-- A part of a text is not longer. -/
private theorem byteLen_le_of_part {part text : List Char} (h : part <:+: text) :
    byteLen part ≤ byteLen text := by
  obtain ⟨a, b, rfl⟩ := h
  simp only [byteLen_append]
  omega

/-- When the lines of a text fit, for a first and a continuation width.  It is enough that the
    text fits the first width, or that the parts of the text fit: at its start the first width,
    anywhere the continuation width, as far as their characters do.  The parts fit if and only
    if the lines of every part do, of one at the start for both widths and of any for the
    continuation width alone.  The measure has results in `usize`, and a `str` has at most
    `usize::MAX` bytes. -/
theorem wrap_fits_iff (w : DisplayWidth) (hw : ∀ text, w.width text ≤ usizeMax) (text : String)
    (htext : text.utf8ByteSize ≤ usizeMax) (firstWidth continuationWidth : Nat) :
    (w.width text ≤ max firstWidth 1 ∨ PartsFit w firstWidth continuationWidth text.toList →
      Fits w firstWidth continuationWidth (wrap w text firstWidth continuationWidth)) ∧
    (PartsFit w firstWidth continuationWidth text.toList ↔
      (∀ part, part <+: text.toList → Fits w firstWidth continuationWidth
        (wrap w (String.ofList part) firstWidth continuationWidth)) ∧
      ∀ part, part <:+: text.toList → Fits w continuationWidth continuationWidth
        (wrap w (String.ofList part) continuationWidth continuationWidth)) := by
  have hsize : ∀ part, part <:+: text.toList → byteLen part ≤ usizeMax := fun part hpart =>
    (byteLen_le_of_part hpart).trans (by rwa [← utf8ByteSize_eq_byteLen, String.ofList_toList])
  refine ⟨?_, fun hparts => ⟨fun part hpart => ?_, fun part hpart => ?_⟩, ?_⟩
  -- A text that fits is one line
  · rintro (hfits | hparts)
    · rw [wrap_eq_of_fits continuationWidth hfits]
      have hempty : Fits w firstWidth continuationWidth [] := fun i line hi => by cases hi
      exact hempty.concat fun _ => hfits
    · exact fits_wrap hw htext hparts
  · refine fits_wrap hw (by rw [utf8ByteSize_eq_byteLen]; exact hsize part hpart.isInfix) ?_
    rw [String.toList_ofList]
    exact hparts.of_prefix hpart
  · refine fits_wrap hw (by rw [utf8ByteSize_eq_byteLen]; exact hsize part hpart) ?_
    rw [String.toList_ofList]
    exact hparts.of_infix hpart
  · rintro ⟨hfirst, hcontinuation⟩
    exact ⟨fun line hline => lineFits_of_fits_wrap (hsize line hline.isInfix) (hfirst line hline),
      fun line hline => lineFits_of_fits_wrap (hsize line hline) (hcontinuation line hline)⟩

/-- With one column for each character, the widths add up to the length. -/
private theorem characterWidths_plainWidth (text : List Char) :
    characterWidths plainWidth text = text.length := by
  induction text with
  | nil => rfl
  | cons c text ih =>
    have hone : plainWidth.width (String.singleton c) = 1 := by
      show min (String.singleton c).length usizeMax = 1
      rw [String.length_singleton]
      rfl
    rw [characterWidths_cons, hone, ih, List.length_cons, Nat.add_comm]

/-- Every line fits by this measure. -/
private theorem lineFits_plainWidth (width : Nat) (line : List Char) :
    LineFits plainWidth width line := by
  intro _ _ hcharacters
  rw [characterWidths_plainWidth] at hcharacters
  refine (Nat.min_le_left _ _).trans ?_
  rwa [String.length_ofList]

/-! ### Emoji presentation -/

/-- The columns of a text.  A heart followed by the variation selector U+FE0F takes two, alone it
    takes one, as every other character does, and the selector takes none. -/
def presentedColumns : List Char → Nat
  | '❤' :: '\uFE0F' :: text => presentedColumns text + 2
  | '\uFE0F' :: text => presentedColumns text
  | _ :: text => presentedColumns text + 1
  | [] => 0

@[inherit_doc presentedColumns]
def presentedWidth : DisplayWidth :=
  ⟨fun text => min (presentedColumns text.toList) usizeMax, by decide⟩

/-- Plain text is wrapped right, and so is a heart that fits as it is, although its characters
    are not as wide. -/
theorem wrap_fits_iff_heart :
    Fits plainWidth 10 8 (wrap plainWidth "/long/path/name" 10 8) ∧
      Fits presentedWidth 80 80 (wrap presentedWidth "❤\uFE0F" 80 80) := by
  constructor
  · refine (wrap_fits_iff plainWidth (fun _ => Nat.min_le_right _ _) "/long/path/name"
      (by decide) 10 8).1 (.inr ⟨?_, ?_⟩)
    · exact fun line _ => lineFits_plainWidth _ line
    · exact fun line _ => lineFits_plainWidth _ line
  · exact (wrap_fits_iff presentedWidth (fun _ => Nat.min_le_right _ _) "❤\uFE0F" (by decide)
      80 80).1 (.inl (by decide))

-- the parts need not fit for the lines to do: `b` and the heart would be too wide together, but
-- the first line ends between them
example : wrap presentedWidth "ab❤\uFE0F" 2 2 = ["ab", "❤\uFE0F"] :=
  Option.some.inj ((run_wrap presentedWidth 2 "ab❤\uFE0F" 2).symm.trans rfl)

/-- Two hearts of two columns each are one line in a width of two. -/
theorem hearts_too_wide :
    presentedWidth.width "❤\uFE0F" = 2 ∧ presentedWidth.width "❤" = 1 ∧
      presentedWidth.width "\uFE0F" = 0 ∧
      wrap presentedWidth "❤\uFE0F❤\uFE0F" 2 2 = ["❤\uFE0F❤\uFE0F", ""] ∧
      presentedWidth.width "❤\uFE0F❤\uFE0F" = 4 ∧
      ¬ ∀ (text : String) (firstWidth continuationWidth : Nat),
        Fits presentedWidth firstWidth continuationWidth
          (wrap presentedWidth text firstWidth continuationWidth) := by
  have hlines : wrap presentedWidth "❤\uFE0F❤\uFE0F" 2 2 = ["❤\uFE0F❤\uFE0F", ""] :=
    Option.some.inj ((run_wrap presentedWidth 2 "❤\uFE0F❤\uFE0F" 2).symm.trans rfl)
  refine ⟨rfl, rfl, rfl, hlines, rfl, fun hfits => ?_⟩
  have hfirst := hfits "❤\uFE0F❤\uFE0F" 2 2 0 _ (by rw [hlines]; rfl) (by decide)
  exact absurd hfirst (by decide)

end Format

/-! ## Rows of a list -/

/-- Leading spaces do not count as text. -/
private theorem length_dropWhile_spaces_le (n : Nat) (line : List Char) :
    ((List.replicate n ' ' ++ line).dropWhile (· = ' ')).length ≤ line.length := by
  rw [List.dropWhile_append, List.dropWhile_replicate]
  simpa using (List.dropWhile_sublist (l := line) _).length_le

/-- A row that fits is one line. -/
theorem length_wrapRow_of_fits {w : Format.DisplayWidth} {contentWidth : Nat} {row : DisplayRow}
    (h : w.width row.text ≤ contentWidth) : (wrapRow w contentWidth row).length = 1 := by
  rw [wrapRow, List.length_map, List.length_zipIdx,
    Format.wrap_eq_of_fits _ (h.trans (Nat.le_max_left contentWidth 1)), List.length_singleton]

/-- The lines of a row fit the list, except for one character that is too wide, if the lines of
    its text fit and leading spaces take at most one column each. -/
theorem width_wrapRow_le {w : Format.DisplayWidth} {row : DisplayRow} {contentWidth : Nat}
    (hcontent : 0 < contentWidth)
    (hfits : ∀ firstWidth continuationWidth, Format.Fits w firstWidth continuationWidth
      (Format.wrap w row.text firstWidth continuationWidth))
    (hspaces : ∀ n line,
      w.width (String.ofList (List.replicate n ' ') ++ line) ≤ n + w.width line) :
    ∀ drawn ∈ wrapRow w contentWidth row,
      (drawn.text.toList.dropWhile (· = ' ')).length ≤ 1 ∨ w.width drawn.text ≤ contentWidth := by
  intro drawn hdrawn
  obtain ⟨⟨line, i⟩, hline, rfl⟩ := List.mem_map.mp hdrawn
  have hi := List.mem_zipIdx_iff_getElem?.mp hline
  have hfit := hfits _ _ i line hi
  simp only
  -- A single character may be too wide, longer lines fit
  by_cases hshort : line.length ≤ 1
  · left
    rw [← String.length_toList] at hshort
    split
    · exact (List.dropWhile_sublist _).length_le.trans hshort
    · rw [String.toList_append, String.toList_ofList]
      exact (length_dropWhile_spaces_le _ _).trans hshort
  · right
    have hwidth := hfit (Nat.lt_of_not_le hshort)
    rw [Format.lineWidth] at hwidth
    split
    case isTrue hzero =>
      rw [if_pos hzero] at hwidth
      omega
    case isFalse hzero =>
      rw [if_neg hzero] at hwidth
      refine (hspaces _ line).trans ?_
      omega

end Landlock.Tui
