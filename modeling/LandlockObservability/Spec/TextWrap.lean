import LandlockObservability.Model.Wrap
import LandlockObservability.ForStd.Loop

/-!
# Wrapping loses nothing

`wrap` computes byte offsets, and it slices the text with functions that check whether an offset
is a character boundary.  Every offset that it computes is one (`exists_cut`), so that the checks
never fail, and it is not zero, so that every round of the loop takes something off the text.
-/

namespace Landlock.Tui.Format

/-! ## Byte offsets -/

@[simp] theorem byteLen_nil : byteLen [] = 0 := rfl

@[simp] theorem byteLen_cons (c : Char) (text : List Char) :
    byteLen (c :: text) = c.utf8Size + byteLen text := rfl

@[simp] theorem byteLen_append (a b : List Char) : byteLen (a ++ b) = byteLen a + byteLen b := by
  rw [byteLen, List.map_append, List.sum_append]
  rfl

/-- Only the empty text has no bytes. -/
private theorem byteLen_eq_zero_iff {text : List Char} : byteLen text = 0 ↔ text = [] := by
  constructor
  · intro h
    by_contra hne
    exact Nat.ne_of_gt (byteLen_pos hne) h
  · rintro rfl
    rfl

/-- The length in bytes of a text. -/
theorem utf8ByteSize_eq_byteLen (text : List Char) :
    (String.ofList text).utf8ByteSize = byteLen text := by
  induction text with
  | nil => rfl
  | cons c text ih =>
    have hcons : String.ofList (c :: text) = String.singleton c ++ String.ofList text := by
      rw [String.singleton_eq_ofList, ← String.ofList_append]
      rfl
    rw [hcons, String.utf8ByteSize_append, String.utf8ByteSize_singleton, ih, byteLen_cons]

/-- A text can be split after any of its characters. -/
theorem splitAtChecked_byteLen (a b : List Char) :
    splitAtChecked (a ++ b) (byteLen a) = some (a, b) := by
  induction a with
  | nil => cases b <;> rfl
  | cons c a ih =>
    have hsize := c.utf8Size_pos
    obtain ⟨n, hn⟩ : ∃ n, byteLen (c :: a) = n + 1 :=
      Nat.exists_eq_succ_of_ne_zero (Nat.ne_of_gt (byteLen_pos (List.cons_ne_nil c a)))
    rw [byteLen_cons] at hn
    have hrest : n + 1 - c.utf8Size = byteLen a := by omega
    rw [byteLen_cons, hn, List.cons_append, splitAtChecked, if_pos (by omega), hrest, ih]
    rfl

/-- Where a text can be split, and into what. -/
private theorem splitAtChecked_eq_some_iff {text a b : List Char} {n : Nat} :
    splitAtChecked text n = some (a, b) ↔ text = a ++ b ∧ byteLen a = n := by
  constructor
  · intro h
    -- A character is taken whole: an offset inside it is refused
    induction text generalizing n a with
    | nil =>
      cases n with
      | zero =>
        cases h
        exact ⟨rfl, rfl⟩
      | succ n => cases h
    | cons c text ih =>
      cases n with
      | zero =>
        cases h
        exact ⟨rfl, rfl⟩
      | succ n =>
        rw [splitAtChecked] at h
        split at h
        · obtain ⟨⟨a', b'⟩, hparts, heq⟩ := Option.map_eq_some_iff.mp h
          cases heq
          obtain ⟨rfl, hlen⟩ := ih hparts
          refine ⟨rfl, ?_⟩
          rw [byteLen_cons, hlen]
          omega
        · cases h
  · rintro ⟨rfl, rfl⟩
    exact splitAtChecked_byteLen a b

/-- A text can be split at its character boundaries, and nowhere else. -/
private theorem isSome_splitAtChecked_iff {text : List Char} {n : Nat} :
    (splitAtChecked text n).isSome = true ↔
      String.Pos.Raw.IsValid (String.ofList text) ⟨n⟩ := by
  rw [Option.isSome_iff_exists, String.Pos.Raw.isValid_iff_exists_append]
  constructor
  · rintro ⟨⟨a, b⟩, hparts⟩
    obtain ⟨rfl, rfl⟩ := splitAtChecked_eq_some_iff.mp hparts
    refine ⟨String.ofList a, String.ofList b, String.ofList_append, ?_⟩
    rw [← utf8ByteSize_eq_byteLen]
    rfl
  -- A valid position stands between two parts
  · rintro ⟨a, b, htext, hn⟩
    have hsize : byteLen a.toList = n := by
      rw [← utf8ByteSize_eq_byteLen, String.ofList_toList]
      exact (congrArg String.Pos.Raw.byteIdx hn).symm
    have hlist := congrArg String.toList htext
    rw [String.toList_ofList, String.toList_append] at hlist
    exact ⟨(a.toList, b.toList), splitAtChecked_eq_some_iff.mpr ⟨hlist, hsize⟩⟩

/-! ## Separators -/

/-- What is found stands where the property holds. -/
private theorem exists_of_rfind {property : List Char → Bool} {text : List Char} {n : Nat}
    (h : rfind property text = some n) :
    ∃ a b, text = a ++ b ∧ byteLen a = n ∧ property b = true := by
  induction text generalizing n with
  | nil => cases h
  | cons c text ih =>
    rw [rfind] at h
    -- A later place is preferred
    cases hrest : rfind property text with
    | some index =>
      rw [hrest] at h
      cases h
      obtain ⟨a, b, rfl, rfl, hb⟩ := ih hrest
      exact ⟨c :: a, b, rfl, rfl, hb⟩
    | none =>
      rw [hrest] at h
      simp only [Option.ite_none_right_eq_some] at h
      obtain ⟨hproperty, heq⟩ := h
      cases heq
      exact ⟨[], c :: text, rfl, rfl, hproperty⟩

/-- Nothing is found if the property holds nowhere. -/
private theorem rfind_eq_none_iff {property : List Char → Bool} {text : List Char} :
    rfind property text = none ↔ ∀ b, b <:+ text → b ≠ [] → property b = false := by
  induction text with
  | nil =>
    refine ⟨fun _ b hb hne => ?_, fun _ => rfl⟩
    exact absurd (List.suffix_nil.mp hb) hne
  | cons c text ih =>
    -- Neither later nor here
    have hcons : rfind property (c :: text) = none ↔
        rfind property text = none ∧ property (c :: text) = false := by
      rw [rfind]
      cases rfind property text <;> simp
    rw [hcons, ih]
    simp only [List.suffix_cons_iff]
    constructor
    · rintro ⟨hrest, hproperty⟩ b (rfl | hb) hne
      · exact hproperty
      · exact hrest b hb hne
    · intro h
      exact ⟨fun b hb => h b (.inr hb), h _ (.inl rfl) (List.cons_ne_nil _ _)⟩

/-- A pattern that is found stands at the offset. -/
private theorem exists_of_rfindText {pattern text : List Char} {n : Nat}
    (h : rfindText pattern text = some n) :
    ∃ a b, text = a ++ pattern ++ b ∧ byteLen a = n := by
  obtain ⟨a, b, rfl, hlen, hb⟩ := exists_of_rfind h
  obtain ⟨rest, rfl⟩ := List.isPrefixOf_iff_prefix.mp hb
  exact ⟨a, rest, (List.append_assoc _ _ _).symm, hlen⟩

/-- A pattern that does not occur in a text does not occur in a part of it. -/
private theorem rfindText_eq_none_of_append {pattern a b : List Char}
    (h : rfindText pattern (a ++ b) = none) : rfindText pattern a = none := by
  refine rfind_eq_none_iff.mpr fun s hs hne => ?_
  obtain ⟨start, rfl⟩ := hs
  have hlonger := rfind_eq_none_iff.mp h (s ++ b) ⟨start, (List.append_assoc _ _ _).symm⟩
    (List.append_ne_nil_of_left_ne_nil hne b)
  rw [Bool.eq_false_iff, ne_eq, List.isPrefixOf_iff_prefix] at hlonger ⊢
  exact fun hs => hlonger (hs.trans (List.prefix_append s b))

/-- The last occurrence of a pattern in a text that ends with it. -/
private theorem rfindText_append_self {pattern : List Char} (hpattern : pattern ≠ [])
    (a : List Char) :
    rfindText pattern (a ++ pattern) = some (byteLen a) := by
  induction a with
  | nil =>
    obtain ⟨c, text, rfl⟩ := List.exists_cons_of_ne_nil hpattern
    -- What follows the first character is shorter than the pattern
    have hlater : rfind (fun suffix => (c :: text).isPrefixOf suffix) text = none := by
      refine rfind_eq_none_iff.mpr fun s hs _ => ?_
      rw [Bool.eq_false_iff, ne_eq, List.isPrefixOf_iff_prefix]
      intro hlong
      have hle := hlong.length_le.trans hs.length_le
      rw [List.length_cons] at hle
      omega
    have hhere : (c :: text).isPrefixOf (c :: text) = true :=
      List.isPrefixOf_iff_prefix.mpr (List.prefix_refl _)
    rw [List.nil_append, rfindText, rfind, hlater]
    exact if_pos hhere
  | cons c a ih =>
    rw [rfindText] at ih
    rw [List.cons_append, rfindText, rfind, ih]
    rfl

/-- The part of a text before the preferred position prefers its own end. -/
private theorem exists_of_separatorSplit {text : List Char} {n : Nat}
    (h : separatorSplit text = some n) :
    ∃ a b, text = a ++ b ∧ byteLen a = n ∧ separatorSplit a = some n := by
  rw [separatorSplit, Option.filter_eq_some_iff] at h
  obtain ⟨h, hn⟩ := h
  -- One case for each separator, in the order in which the source tries them
  cases hcomma : rfindText [',', ' '] text with
  | some index =>
    rw [hcomma] at h
    cases h
    obtain ⟨a, b, rfl, rfl⟩ := exists_of_rfindText hcomma
    refine ⟨a ++ [',', ' '], b, rfl, byteLen_append _ _, ?_⟩
    rw [separatorSplit, rfindText_append_self (List.cons_ne_nil _ _)]
    rfl
  | none =>
    rw [hcomma] at h
    cases hslash : rfindText ['/'] text with
    | some index =>
      rw [hslash] at h
      cases h
      obtain ⟨a, b, rfl, rfl⟩ := exists_of_rfindText hslash
      refine ⟨a ++ ['/'], b, rfl, byteLen_append _ _, ?_⟩
      rw [separatorSplit, rfindText_eq_none_of_append hcomma,
        rfindText_append_self (List.cons_ne_nil _ _)]
      rfl
    | none =>
      rw [hslash] at h
      obtain ⟨index, hspace, rfl⟩ := Option.map_eq_some_iff.mp h
      obtain ⟨a, b, rfl, rfl⟩ := exists_of_rfindText hspace
      refine ⟨a ++ [' '], b, rfl, byteLen_append _ _, ?_⟩
      rw [separatorSplit, rfindText_eq_none_of_append hcomma,
        rfindText_eq_none_of_append hslash, rfindText_append_self (List.cons_ne_nil _ _)]
      rfl

/-- No line ends inside a text: it has no separator, or only one at its end that counts. -/
def Unbroken (text : List Char) : Prop := ∀ n, separatorSplit text = some n → n = byteLen text

instance (text : List Char) : Decidable (Unbroken text) :=
  decidable_of_iff (∀ n ∈ separatorSplit text, n = byteLen text) Iff.rfl

/-! ## Lines -/

section Lines

variable (w : DisplayWidth)

/-- The widths of the characters of a text, added up. -/
def characterWidths (text : List Char) : Nat :=
  (text.map fun c => w.width (String.singleton c)).sum

@[simp] theorem characterWidths_cons (c : Char) (text : List Char) :
    characterWidths w (c :: text) = w.width (String.singleton c) + characterWidths w text := rfl

@[simp] theorem characterWidths_append (a b : List Char) :
    characterWidths w (a ++ b) = characterWidths w a + characterWidths w b := by
  rw [characterWidths, List.map_append, List.sum_append]
  rfl

/-- Sums that saturate are saturated sums. -/
private theorem usizeSaturatingAdd_min (a b : Nat) :
    usizeSaturatingAdd (min a usizeMax) b = min (a + b) usizeMax := by
  rw [usizeSaturatingAdd]
  omega

/-- `used_width` after some characters. -/
def usedWidth (text : List Char) : Nat := min (characterWidths w text) usizeMax

/-- The width after one more character. -/
private theorem usedWidth_concat (text : List Char) (c : Char) :
    usizeSaturatingAdd (usedWidth w text) (w.width (String.singleton c)) =
      usedWidth w (text ++ [c]) := by
  rw [usedWidth, usizeSaturatingAdd_min, usedWidth, characterWidths_append]
  rfl

/-- More characters are not narrower. -/
private theorem usedWidth_append_le (a b : List Char) : usedWidth w a ≤ usedWidth w (a ++ b) := by
  rw [usedWidth, usedWidth, characterWidths_append]
  omega

variable {w} {width : Nat} {remaining : List Char}

/-- The loop takes characters while they fit, and at least one; if there are any left over, the
    whole text does not fit. -/
private theorem exists_scan (hlen : byteLen remaining ≤ usizeMax) (text done : List Char)
    (htext : remaining = done ++ text) (hdone : usedWidth w done ≤ width) :
    ∃ a b, remaining = a ++ b ∧
      scan w (byteLen remaining) width text (byteLen done) (usedWidth w done) (byteLen done) =
        byteLen a ∧
      (a.length ≤ 1 ∨ usedWidth w a ≤ width) ∧ (b = [] ∨ width < usedWidth w remaining) := by
  -- `byte_limit` is the end of the characters taken so far, as `index` is in the source
  induction text generalizing done with
  | nil => exact ⟨done, [], htext, rfl, .inr hdone, .inl rfl⟩
  | cons c text ih =>
    have hconcat : remaining = (done ++ [c]) ++ text := by rw [htext, List.append_assoc]; rfl
    -- The offset does not overflow: it is inside the text
    have hend : min (usizeSaturatingAdd (byteLen done) c.utf8Size) (byteLen remaining) =
        byteLen (done ++ [c]) := by
      have hbyteLen := congrArg byteLen hconcat
      rw [byteLen_append, byteLen_append] at hbyteLen
      rw [usizeSaturatingAdd, byteLen_append]
      rw [byteLen_cons, byteLen_nil] at hbyteLen ⊢
      omega
    rw [scan, hend, usedWidth_concat]
    split
    case isTrue hover =>
      have hwide : width < usedWidth w remaining := by
        rw [hconcat]
        exact Nat.lt_of_lt_of_le hover (usedWidth_append_le w _ _)
      split
      case isTrue hzero =>
        -- The first character is too wide and is taken nevertheless
        rw [byteLen_eq_zero_iff] at hzero
        subst hzero
        exact ⟨[c], text, hconcat, rfl, .inl (Nat.le_refl 1), .inr hwide⟩
      case isFalse => exact ⟨done, c :: text, htext, rfl, .inr hdone, .inr hwide⟩
    case isFalse hfits =>
      have hindex : byteLen done + c.utf8Size = byteLen (done ++ [c]) := by
        rw [byteLen_append]
        rfl
      rw [hindex]
      exact ih (done ++ [c]) hconcat (Nat.le_of_not_lt hfits)

/-- A line that is cut off, and the rest. -/
structure Cut (w : DisplayWidth) (width : Nat) (remaining line rest : List Char) : Prop where
  text : remaining = line ++ rest
  split : lineSplit w width remaining = byteLen line
  unbroken : Unbroken line
  fits : line.length ≤ 1 ∨ usedWidth w line ≤ width

/-- The limit of a line is a character boundary. -/
theorem exists_byteLimit (w : DisplayWidth) (width : Nat) (hlen : byteLen remaining ≤ usizeMax) :
    ∃ a b, remaining = a ++ b ∧ byteLimit w width remaining = byteLen a ∧
      (a.length ≤ 1 ∨ usedWidth w a ≤ width) ∧ (b = [] ∨ width < usedWidth w remaining) :=
  exists_scan hlen remaining [] rfl (Nat.zero_le _)

/-- Every line that is cut off ends at a character boundary. -/
theorem exists_cut (w : DisplayWidth) (width : Nat) (hlen : byteLen remaining ≤ usizeMax) :
    ∃ line rest, Cut w width remaining line rest := by
  obtain ⟨candidate, rest, rfl, hlimit, hfits, -⟩ := exists_byteLimit w width hlen
  have hsplit : lineSplit w width (candidate ++ rest) =
      (separatorSplit candidate).getD (byteLen candidate) := by
    rw [lineSplit, hlimit, splitAtChecked_byteLen]
    rfl
  -- The line ends after the last separator, or at the limit if there is none
  cases hseparator : separatorSplit candidate with
  | none =>
    rw [hseparator] at hsplit
    have hunbroken : Unbroken candidate := fun n hn => by rw [hseparator] at hn; cases hn
    exact ⟨candidate, rest, rfl, hsplit, hunbroken, hfits⟩
  | some n =>
    rw [hseparator] at hsplit
    obtain ⟨line, tail, rfl, hline, hself⟩ := exists_of_separatorSplit hseparator
    refine ⟨line, tail ++ rest, List.append_assoc _ _ _, hsplit.trans hline.symm, ?_, ?_⟩
    · intro m hm
      rw [hself] at hm
      cases hm
      exact hline.symm
    · rw [List.length_append] at hfits
      refine hfits.imp (fun hshort => by omega) fun hused => ?_
      exact (usedWidth_append_le w line tail).trans hused

/-- Taking a line takes what is cut off. -/
theorem Cut.takeLine_eq {line rest : List Char} (h : Cut w width remaining line rest) :
    takeLine w width remaining = (line, rest) := by
  rw [takeLine, h.split, h.text, splitAtChecked_byteLen]
  rfl

/-- Nothing is lost, also if a check of an offset were to fail. -/
private theorem takeLine_append (w : DisplayWidth) (width : Nat) (remaining : List Char) :
    (takeLine w width remaining).1 ++ (takeLine w width remaining).2 = remaining := by
  rw [takeLine]
  cases hsplit : splitAtChecked remaining (lineSplit w width remaining) with
  | none => exact List.append_nil remaining
  | some parts => exact (splitAtChecked_eq_some_iff.mp hsplit).1.symm

/-- Something is taken off every time. -/
private theorem takeLine_ne_nil (h : remaining ≠ []) : (takeLine w width remaining).1 ≠ [] := by
  rw [takeLine]
  cases hsplit : splitAtChecked remaining (lineSplit w width remaining) with
  | none => exact h
  | some parts =>
    have hpos : 0 < lineSplit w width remaining := lineSplit_pos w h
    rw [← (splitAtChecked_eq_some_iff.mp hsplit).2] at hpos
    exact fun hnil => Nat.ne_of_gt hpos (byteLen_eq_zero_iff.mpr hnil)

/-- The loop goes on only while there is text left. -/
private theorem ne_nil_of_lt_width (h : width < w.width (String.ofList remaining)) :
    remaining ≠ [] := by
  rintro rfl
  rw [show String.ofList [] = "" from rfl, w.width_empty] at h
  exact Nat.not_lt_zero _ h

end Lines

/-! ## Rounds -/

/-- The variables of the `while` loop. -/
structure Wrapping where
  width : Nat
  remaining : List Char
  output : List String

/-- The variables before the first round. -/
def Wrapping.start (firstWidth : Nat) (text : String) : Wrapping :=
  ⟨max firstWidth 1, text.toList, []⟩

section Rounds

variable (w : DisplayWidth) (continuationWidth : Nat)

/-- A round of the `while` loop: it cuts a line off, or the loop ends. -/
def wrapRound (s : Wrapping) : Wrapping ⊕ List String :=
  if s.width < w.width (String.ofList s.remaining) then
    let line := takeLine w s.width s.remaining
    .inl ⟨max continuationWidth 1, line.2, s.output ++ [String.ofList line.1]⟩
  else
    .inr (s.output ++ [String.ofList s.remaining])

/-- What a round does that goes on. -/
theorem wrapRound_eq_inl {s s' : Wrapping} (h : wrapRound w continuationWidth s = .inl s') :
    s.width < w.width (String.ofList s.remaining) ∧
      s' = ⟨max continuationWidth 1, (takeLine w s.width s.remaining).2,
        s.output ++ [String.ofList (takeLine w s.width s.remaining).1]⟩ := by
  rw [wrapRound] at h
  split at h
  case isTrue hwidth => exact ⟨hwidth, (Sum.inl.inj h).symm⟩
  case isFalse => cases h

/-- What the last round does. -/
private theorem wrapRound_eq_inr {s : Wrapping} {lines : List String}
    (h : wrapRound w continuationWidth s = .inr lines) :
    w.width (String.ofList s.remaining) ≤ s.width ∧
      lines = s.output ++ [String.ofList s.remaining] := by
  rw [wrapRound] at h
  split at h
  case isTrue => cases h
  case isFalse hwidth => exact ⟨Nat.le_of_not_lt hwidth, (Sum.inr.inj h).symm⟩

/-- The loop ends, after at most one round for each character and one more. -/
private theorem run_wrapRound (rounds : Nat) (s : Wrapping) (h : s.remaining.length < rounds) :
    Loop.run (wrapRound w continuationWidth) rounds s =
      some (wrapLoop w continuationWidth s.width s.remaining s.output) := by
  induction rounds generalizing s with
  | zero => cases h
  | succ rounds ih =>
    rw [Loop.run, wrapRound, wrapLoop]
    by_cases hwidth : s.width < w.width (String.ofList s.remaining)
    · have hshorter : (takeLine w s.width s.remaining).2.length < s.remaining.length :=
        length_takeLine w (ne_nil_of_lt_width hwidth)
      rw [if_pos hwidth, if_pos hwidth]
      exact ih _ (Nat.lt_of_lt_of_le hshorter (Nat.le_of_lt_succ h))
    · rw [if_neg hwidth, if_neg hwidth]

/-- The loop ends with the lines of the text. -/
theorem run_wrap (text : String) (firstWidth : Nat) :
    Loop.run (wrapRound w continuationWidth) (text.length + 1) (.start firstWidth text) =
      some (wrap w text firstWidth continuationWidth) := by
  have hrun := run_wrapRound w continuationWidth (text.length + 1) (.start firstWidth text)
    (by rw [← String.length_toList]; exact Nat.lt_succ_self _)
  rw [hrun, wrap]
  -- The source returns one empty line for the empty text, and so does the loop
  split
  case isTrue hempty =>
    subst hempty
    rw [wrapLoop, Wrapping.start, if_neg (by simp [w.width_empty])]
    rfl
  case isFalse => rfl

/-- A measure for which every character takes one column. -/
def plainWidth : DisplayWidth := ⟨fun text => min text.length usizeMax, by decide⟩

example : wrap plainWidth "/long/path/name" 10 8 = ["/long/", "path/", "name"] :=
  Option.some.inj ((run_wrap plainWidth 8 "/long/path/name" 10).symm.trans rfl)

variable {w continuationWidth}

/-- What the loop has done of a text. -/
structure Wrapping.Of (text : String) (s : Wrapping) : Prop where
  text : String.join s.output ++ String.ofList s.remaining = text
  nonempty : ∀ line ∈ s.output, line ≠ ""

/-- A round keeps what the loop has done. -/
theorem Wrapping.Of.round {text : String} {s s' : Wrapping} (h : s.Of text)
    (hround : wrapRound w continuationWidth s = .inl s') : s'.Of text := by
  obtain ⟨hwidth, rfl⟩ := wrapRound_eq_inl w continuationWidth hround
  constructor
  · rw [String.join_append, String.append_assoc]
    simp [← String.ofList_append, takeLine_append, h.text]
  · intro line hline
    rcases List.mem_append.mp hline with hline | hline
    · exact h.nonempty line hline
    · rw [List.mem_singleton.mp hline, ne_eq, String.ofList_eq_empty_iff]
      exact takeLine_ne_nil (ne_nil_of_lt_width hwidth)

/-- At the start nothing is done. -/
theorem Wrapping.Of.start (firstWidth : Nat) (text : String) :
    (Wrapping.start firstWidth text).Of text :=
  ⟨by simp [Wrapping.start], fun _ hline => absurd hline List.not_mem_nil⟩

/-- After any number of rounds the text is still there. -/
private theorem of_after {text : String} {firstWidth n : Nat} {s : Wrapping}
    (h : Loop.After (wrapRound w continuationWidth) (.start firstWidth text) n s) :
    s.Of text :=
  h.invariant (I := fun _ s => s.Of text) (fun _ _ _ hs hround => hs.round hround)
    (.start firstWidth text)

/-- The lines are those cut off in the rounds and what is left over after them. -/
theorem exists_after_of_wrap (w : DisplayWidth) (text : String)
    (firstWidth continuationWidth : Nat) :
    ∃ n s, Loop.After (wrapRound w continuationWidth) (.start firstWidth text) n s ∧
      w.width (String.ofList s.remaining) ≤ s.width ∧
      wrap w text firstWidth continuationWidth = s.output ++ [String.ofList s.remaining] := by
  obtain ⟨n, _, s, hafter, hround⟩ :=
    Loop.exists_after_of_run (run_wrap w continuationWidth text firstWidth)
  exact ⟨n, s, hafter, wrapRound_eq_inr w continuationWidth hround⟩

/-- Every part of a text fits where the text fits. -/
theorem Wrapping.Of.byteLen_le {text : String} {s : Wrapping} (h : s.Of text)
    (htext : text.utf8ByteSize ≤ usizeMax) : byteLen s.remaining ≤ usizeMax := by
  rw [← h.text, String.utf8ByteSize_append, utf8ByteSize_eq_byteLen] at htext
  omega

end Rounds

/-- The lines of a text.  The loop returns them after at most one round for each character and
    one more, they are the text when put together, only the last may be empty, and each ends at a
    character boundary of the text.  A `str` has at most `usize::MAX` bytes, and for such a text
    every offset that a round computes is a character boundary of what is left, so that no check
    of one fails. -/
theorem wrap_loses_nothing (w : DisplayWidth) (text : String)
    (firstWidth continuationWidth : Nat) :
    Loop.run (wrapRound w continuationWidth) (text.length + 1) (.start firstWidth text) =
        some (wrap w text firstWidth continuationWidth) ∧
      String.join (wrap w text firstWidth continuationWidth) = text ∧
      (∀ line ∈ (wrap w text firstWidth continuationWidth).dropLast, line ≠ "") ∧
      (∀ i, String.Pos.Raw.IsValid text
        ⟨(String.join ((wrap w text firstWidth continuationWidth).take i)).utf8ByteSize⟩) ∧
      (text.utf8ByteSize ≤ usizeMax → ∀ n s,
        Loop.After (wrapRound w continuationWidth) (.start firstWidth text) n s →
        String.Pos.Raw.IsValid (String.ofList s.remaining) ⟨byteLimit w s.width s.remaining⟩ ∧
          String.Pos.Raw.IsValid (String.ofList s.remaining)
            ⟨lineSplit w s.width s.remaining⟩) := by
  obtain ⟨n, s, hafter, -, hlines⟩ := exists_after_of_wrap w text firstWidth continuationWidth
  have hof := of_after hafter
  have hjoin : String.join (wrap w text firstWidth continuationWidth) = text := by
    rw [hlines, String.join_append, ← hof.text]
    simp
  refine ⟨run_wrap w continuationWidth text firstWidth, hjoin, ?_, ?_, ?_⟩
  · rw [hlines, List.dropLast_concat]
    exact hof.nonempty
  -- The first lines are the start of the text
  · intro i
    refine String.Pos.Raw.isValid_iff_exists_append.mpr
      ⟨_, String.join ((wrap w text firstWidth continuationWidth).drop i), ?_, rfl⟩
    rw [← String.join_append, List.take_append_drop, hjoin]
  -- Both offsets of a round are ends of parts of what is left
  · intro htext n s hafter
    have hlen := (of_after hafter).byteLen_le htext
    obtain ⟨candidate, after, hcandidate, hlimit, -⟩ := exists_byteLimit w s.width hlen
    obtain ⟨line, rest, hcut⟩ := exists_cut w s.width hlen
    rw [← isSome_splitAtChecked_iff, ← isSome_splitAtChecked_iff]
    constructor
    · rw [splitAtChecked_eq_some_iff.mpr ⟨hcandidate, hlimit.symm⟩]
      rfl
    · rw [splitAtChecked_eq_some_iff.mpr ⟨hcut.text, hcut.split.symm⟩]
      rfl

/-- The second line of a path is cut off at a character boundary. -/
theorem wrap_loses_nothing_path :
    String.Pos.Raw.IsValid (String.ofList "path/name".toList)
        ⟨lineSplit plainWidth 8 "path/name".toList⟩ ∧
      String.join (wrap plainWidth "/long/path/name" 10 8) = "/long/path/name" := by
  obtain ⟨-, hjoin, -, -, hsplits⟩ := wrap_loses_nothing plainWidth "/long/path/name" 10 8
  have hround : wrapRound plainWidth 8 (.start 10 "/long/path/name") =
      .inl ⟨8, "path/name".toList, ["/long/"]⟩ := by
    rfl
  exact ⟨(hsplits (by decide) 1 _ (.next .start hround)).2, hjoin⟩

end Landlock.Tui.Format
