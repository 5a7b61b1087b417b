import LandlockObservability.ForStd.Hoare

/-!
# Output streams

A stream takes texts, and each of its operations may fail.  A write that fails may have taken a
part of its text; what was written is certainly out only after a flush that succeeded.

* `write_spec`, `flush_spec`: what an operation leaves behind, also when it fails
* `printLines_spec`: lines that are written one after the other and then flushed
* `readLines_lines_append`, `readLines_prefix`: a reader of the stream finds the lines again
-/

open Hoare
open scoped List

namespace Output

variable {ε : Type}

/-- A stream: what was written, how much of it is certainly out, the number of operations so far,
    and which operations fail, after how many characters. -/
structure Writer (ε : Type) where
  text : List Char
  flushed : Nat
  calls : Nat
  fate : Nat → Option (Nat × ε)

/-- Nothing waits to be flushed. -/
def Writer.Flushed (w : Writer ε) : Prop := w.flushed = w.text.length

/-- A stream at its start. -/
def Writer.start (fate : Nat → Option (Nat × ε)) : Writer ε := ⟨[], 0, 0, fate⟩

/-- Writes a text, or a part of it. -/
def write (text : List Char) : EStateM ε (Writer ε) Unit := fun w =>
  match w.fate w.calls with
  | none => .ok () { w with text := w.text ++ text, calls := w.calls + 1 }
  | some (written, error) =>
    .error error { w with text := w.text ++ text.take written, calls := w.calls + 1 }

def flush : EStateM ε (Writer ε) Unit := fun w =>
  match w.fate w.calls with
  | none => .ok () { w with flushed := w.text.length, calls := w.calls + 1 }
  | some (_, error) => .error error { w with calls := w.calls + 1 }

/-- Lines of text, each with its end. -/
def lines (records : List String) : List Char :=
  records.flatMap fun record => record.toList ++ ['\n']

/-- Lines follow each other. -/
theorem lines_append (records records' : List String) :
    lines (records ++ records') = lines records ++ lines records' :=
  List.flatMap_append

/-- A line is never empty, since it has an end. -/
theorem eq_nil_of_lines_eq_nil {records : List String} (h : lines records = []) : records = [] := by
  cases records with
  | nil => rfl
  | cons record records => simp [lines] at h

def writeln (record : String) : EStateM ε (Writer ε) Unit := write (lines [record])

def writeLines (records : List String) : EStateM ε (Writer ε) Unit := records.forM writeln

/-- Writes lines and flushes them. -/
def printLines (records : List String) : EStateM ε (Writer ε) Unit := do
  writeLines records
  flush

variable {before : List Char}

/-- A part of a text has been written. -/
def Partly (before text : List Char) (w : Writer ε) : Prop :=
  ∃ part, part <+: text ∧ w.text = before ++ part

/-- A part of a text is a part of a longer one. -/
theorem Partly.mono {text text' : List Char} {w : Writer ε} (h : Partly before text w)
    (hle : text <+: text') : Partly before text' w := by
  obtain ⟨part, hpart, htext⟩ := h
  exact ⟨part, hpart.trans hle, htext⟩

/-- A write that fails has written a part of its text. -/
theorem write_spec (text : List Char) :
    Triple (fun w : Writer ε => w.text = before) (write text)
      (fun _ w => w.text = before ++ text) fun _ => Partly before text := by
  intro w hw
  unfold write
  cases hfate : w.fate w.calls with
  | none => exact congrArg (· ++ text) hw
  | some failure => exact ⟨text.take failure.1, List.take_prefix _ _, congrArg (· ++ _) hw⟩

/-- A flush writes nothing new. -/
theorem flush_spec :
    Triple (fun w : Writer ε => w.text = before) flush
      (fun _ w => w.text = before ∧ w.Flushed) fun _ w => w.text = before := by
  intro w hw
  unfold flush
  cases hfate : w.fate w.calls with
  | none => exact ⟨hw, rfl⟩
  | some failure => exact hw

/-- Lines that fail have been written in part. -/
private theorem writeLines_spec (records : List String) :
    Triple (fun w : Writer ε => w.text = before) (writeLines records)
      (fun _ w => w.text = before ++ lines records) fun _ => Partly before (lines records) := by
  -- The text so far is the lines so far
  have hforM := Triple.forM
    (I := fun written (w : Writer ε) => w.text = before ++ lines written)
    (B := fun written record _ w => Partly before (lines (written ++ [record])) w)
    (f := writeln) (fun written record => ?_) [] records
  · refine hforM.weaken (fun w hw => by simpa [lines] using hw) (fun _ w hw => hw) ?_
    rintro error w ⟨written, record, rest, hrecords, hpartly⟩
    -- A part of the lines up to the failed one is a part of all lines
    have hsplit : records = ([] ++ written ++ [record]) ++ rest := by simp [hrecords]
    rw [hsplit, lines_append]
    exact hpartly.mono (List.prefix_append _ _)
  · refine (write_spec (lines [record])).weaken (fun _ => id) (fun _ w hw => ?_) ?_
    · rw [hw, List.append_assoc, lines_append]
    · rintro error w ⟨part, hpart, htext⟩
      refine ⟨lines written ++ part, ?_, by rw [htext, List.append_assoc]⟩
      rw [lines_append]
      exact (List.prefix_append_right_inj _).mpr hpart

/-- Lines that are written and flushed. -/
theorem printLines_spec (before : List Char) (records : List String) :
    Triple (fun w : Writer ε => w.text = before) (printLines records)
      (fun _ w => w.text = before ++ lines records ∧ w.Flushed)
      fun _ => Partly before (lines records) :=
  (writeLines_spec records).bind fun _ =>
    flush_spec.weaken (fun _ => id) (fun _ _ => id) fun _ _ hw => ⟨_, List.prefix_rfl, hw⟩

/-! ## Reliable streams -/

/-- No operation fails. -/
def Writer.Reliable (w : Writer ε) : Prop := ∀ n, w.fate n = none

/-- A write to a stream that works does not fail, -/
private theorem write_reliable (text : List Char) :
    Triple Writer.Reliable (write text) (fun _ (w : Writer ε) => w.Reliable) fun _ _ => False := by
  intro w hw
  unfold write
  rw [hw w.calls]
  exact hw

/-- a flush does not, -/
private theorem flush_reliable :
    Triple Writer.Reliable flush (fun _ (w : Writer ε) => w.Reliable) fun _ _ => False := by
  intro w hw
  unfold flush
  rw [hw w.calls]
  exact hw

/-- and so lines can be written. -/
theorem printLines_reliable (records : List String) :
    Triple Writer.Reliable (printLines records) (fun _ (w : Writer ε) => w.Reliable)
      fun _ _ => False := by
  have hlines := Triple.forM (I := fun _ (w : Writer ε) => w.Reliable) (B := fun _ _ _ _ => False)
    (f := writeln) (fun _ record => write_reliable (lines [record])) [] records
  refine (hlines.weaken (fun _ => id) (fun _ _ => id) ?_).bind fun _ => flush_reliable
  rintro _ _ ⟨_, _, _, _, hfalse⟩
  exact hfalse

/-! ## Fates -/

/-- A part of a text of lines is a number of lines and a part of the next one. -/
private theorem prefix_lines {records : List String} {part : List Char}
    (h : part <+: lines records) :
    part = lines records ∨ ∃ written record rest tail, records = written ++ record :: rest ∧
      tail <+: record.toList ∧ part = lines written ++ tail := by
  induction records generalizing part with
  | nil => exact .inl (List.prefix_nil.mp h)
  | cons record records ih =>
    have hcons : lines (record :: records) = record.toList ++ '\n' :: lines records := by
      simp [lines]
    rw [hcons] at h
    rcases List.prefix_or_prefix_of_prefix h (List.prefix_append _ _) with hshort | ⟨more, rfl⟩
    · exact .inr ⟨[], record, records, part, rfl, hshort, rfl⟩
    · -- the line is complete, but its end may be missing
      have hmore := (List.prefix_append_right_inj _).mp h
      cases more with
      | nil =>
        exact .inr ⟨[], record, records, record.toList, rfl, List.prefix_rfl, by simp [lines]⟩
      | cons c more =>
        obtain ⟨rfl, hlines⟩ := List.cons_prefix_cons.mp hmore
        rcases ih hlines with rfl | ⟨written, next, rest, tail, rfl, htail, rfl⟩
        · exact .inl hcons.symm
        · refine .inr ⟨record :: written, next, rest, tail, rfl, htail, ?_⟩
          simp [lines]

/-- The complete lines of a text. -/
def readLines (text : List Char) : List String :=
  (text.splitOn '\n').dropLast.map String.ofList

/-- Lines that have no line end in them can be read back. -/
theorem readLines_lines_append {records : List String}
    (h : ∀ record ∈ records, '\n' ∉ record.toList) (rest : List Char) :
    readLines (lines records ++ rest) = records ++ readLines rest := by
  induction records with
  | nil => rfl
  | cons record records ih =>
    obtain ⟨hrecord, hrecords⟩ := List.forall_mem_cons.mp h
    have hcons : lines (record :: records) ++ rest =
        record.toList ++ '\n' :: (lines records ++ rest) := by simp [lines]
    rw [hcons, readLines, List.splitOn_append_cons_self_of_not_mem hrecord,
      List.dropLast_cons_of_ne_nil (List.splitOn_ne_nil _ _), List.map_cons, String.ofList_toList,
      ← readLines, ih hrecords, List.cons_append]

/-- A reader of lines finds them again. -/
theorem readLines_lines {records : List String}
    (h : ∀ record ∈ records, '\n' ∉ record.toList) : readLines (lines records) = records := by
  simpa [readLines] using readLines_lines_append h []

/-- A reader finds every line that was written completely, -/
theorem prefix_readLines {records : List String} {text : List Char}
    (h : ∀ record ∈ records, '\n' ∉ record.toList) (htext : lines records <+: text) :
    records <+: readLines text := by
  obtain ⟨rest, rfl⟩ := htext
  rw [readLines_lines_append h]
  exact List.prefix_append _ _

/-- and no other line. -/
theorem readLines_prefix {records : List String} {part : List Char}
    (h : ∀ record ∈ records, '\n' ∉ record.toList) (hpart : part <+: lines records) :
    readLines part <+: records := by
  rcases prefix_lines hpart with rfl | ⟨written, record, rest, tail, rfl, htail, rfl⟩
  · exact ⟨[], by rw [List.append_nil, readLines_lines h]⟩
  · have hwritten : ∀ line ∈ written, '\n' ∉ line.toList := fun line hline =>
      h line (List.mem_append_left _ hline)
    have hline : '\n' ∉ tail := fun hmem => h record (by simp) (htail.mem hmem)
    rw [readLines_lines_append hwritten, readLines, List.splitOn_eq_singleton hline]
    exact (List.prefix_append_right_inj _).mpr List.nil_prefix

end Output
