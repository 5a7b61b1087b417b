import LandlockObservability.ForStd.Line
import LandlockObservability.ForStd.Numeral
import LandlockObservability.Model.Generator

/-!
# The text of generated tables

The generator writes its tables as the lines of a Rust file.  Nothing is lost: an entry has a
line of its own, from which its shift and its name can be read back, and a table ends with a line
that is no entry.

- `entryLine_inj`: an entry can be read back from its line
- `render_inj`: tables can be read back from their text
-/

namespace Landlock.Generator

/-! ## Lines of entries -/

/-- The line of an entry. -/
def entryLine (entry : Nat × String) : String :=
  s!"    (1_u64 << {entry.1}, \"{entry.2}\"),"

/-- The line before the entries of a table. -/
def tableLine (kind : AccessKind) : String :=
  s!"pub(crate) const {rustName kind}: &[(u64, &str)] = &["

/-- The line of an entry, piece by piece. -/
private theorem toList_entryLine (entry : Nat × String) :
    (entryLine entry).toList = "    (1_u64 << ".toList ++
      (Nat.toDigits 10 entry.1 ++ ',' :: (" \"".toList ++ (entry.2.toList ++ "\"),".toList))) := by
  have hdigits : (toString entry.1).toList = Nat.toDigits 10 entry.1 := String.toList_ofList
  have hcomma : ", \"".toList = ',' :: " \"".toList := rfl
  -- Unfolding by name would compare the texts byte by byte
  change ("    (1_u64 << " ++ toString entry.1 ++ ", \"" ++ entry.2 ++ "\"),").toList = _
  simp only [String.toList_append, hdigits, hcomma, List.append_assoc, List.cons_append]

/-- An entry can be read back from its line. -/
theorem entryLine_inj {entry entry' : Nat × String} (h : entryLine entry = entryLine entry') :
    entry = entry' := by
  have hlist := congrArg String.toList h
  rw [toList_entryLine, toList_entryLine] at hlist
  have hcomma : ∀ n, ',' ∉ Nat.toDigits 10 n := by
    intro n hmem
    obtain ⟨digit, hdigit, heq⟩ := Numeral.mem_toDigits (by decide) (by decide) hmem
    revert digit
    decide
  obtain ⟨hshift, hrest⟩ := Line.append_separator_inj (hcomma _) (hcomma _)
    (List.append_cancel_left hlist)
  have hname := List.append_cancel_right (List.append_cancel_left hrest)
  exact Prod.ext (Numeral.toDigits_inj (by decide) (by decide) hshift) (String.toList_inj.mp hname)

/-- The line of an entry is one line. -/
private theorem newline_notMem_entryLine {entry : Nat × String} (h : isName entry.2 = true) :
    '\n' ∉ (entryLine entry).toList := by
  have hdigits : '\n' ∉ Nat.toDigits 10 entry.1 := by
    intro hmem
    obtain ⟨digit, hdigit, heq⟩ := Numeral.mem_toDigits (by decide) (by decide) hmem
    revert digit
    decide
  -- A name has lower case letters, digits and underscores only
  have hname : '\n' ∉ entry.2.toList := by
    rw [isName] at h
    cases hchars : entry.2.toList with
    | nil => exact List.not_mem_nil
    | cons c cs =>
      simp only [hchars, Bool.and_eq_true, List.all_eq_true] at h
      intro hmem
      rcases List.mem_cons.mp hmem with rfl | hmem
      · exact absurd h.1 (by decide)
      · exact absurd (h.2 _ hmem) (by decide)
  simp only [toList_entryLine, List.mem_append, List.mem_cons, not_or]
  exact ⟨by decide, hdigits, by decide, by decide, hname, by decide⟩

/-! ## Tables -/

/-- The lines of a table, with a text of its own for the end. -/
private theorem renderTable_eq (kind : AccessKind) (table : Table) :
    renderTable kind table = "#[rustfmt::skip]" :: tableLine kind ::
      (table.map entryLine ++ "];" :: if kind = .scope then [] else [""]) := by
  cases kind <;> rfl

/-- No entry looks like the end of a table. -/
private theorem end_notMem_entries (table : Table) : "];" ∉ table.map entryLine := by
  intro hmem
  obtain ⟨entry, -, heq⟩ := List.mem_map.mp hmem
  have hlist := congrArg String.toList heq
  rw [toList_entryLine] at hlist
  cases hlist

/-- All names of the tables are names. -/
def Named (tables : AccessKind → Table) : Prop :=
  ∀ kind, ∀ entry ∈ tables kind, isName entry.2 = true

/-- The lines of the tables. -/
def renderLines (tables : AccessKind → Table) : List String :=
  categories.flatMap fun kind => renderTable kind (tables kind)

/-- Every line of the text is one line. -/
private theorem Named.newline_notMem {tables : AccessKind → Table} (h : Named tables) :
    ∀ line ∈ renderLines tables, '\n' ∉ line.toList := by
  intro line hline
  obtain ⟨kind, -, hline⟩ := List.mem_flatMap.mp hline
  rw [renderTable_eq, List.mem_cons, List.mem_cons, List.mem_append, List.mem_cons] at hline
  -- The lines of a table: a blank one, its start, the entries and its end
  rcases hline with rfl | rfl | hline | rfl | hline
  · decide
  · cases kind <;> decide +kernel
  · obtain ⟨entry, hentry, rfl⟩ := List.mem_map.mp hline
    exact newline_notMem_entryLine (h kind entry hentry)
  · decide
  · split at hline
    · exact absurd hline List.not_mem_nil
    · rw [List.mem_singleton.mp hline]
      decide

/-- Tables can be read back from their lines. -/
private theorem renderLines_inj {tables tables' : AccessKind → Table}
    (h : renderLines tables = renderLines tables') : tables = tables' := by
  simp only [renderLines, categories, List.flatMap_cons, List.flatMap_nil, renderTable_eq,
    List.cons_append, List.append_assoc, List.cons.injEq, true_and] at h
  -- The line `];` ends a table and is no entry
  obtain ⟨hfilesystem, h⟩ := Line.append_separator_inj (end_notMem_entries _)
    (end_notMem_entries _) h
  simp only [reduceCtorEq, if_false, List.cons_append, List.nil_append, List.cons.injEq,
    true_and] at h
  obtain ⟨hnetwork, h⟩ := Line.append_separator_inj (end_notMem_entries _)
    (end_notMem_entries _) h
  simp only [List.cons.injEq, true_and] at h
  obtain ⟨hscope, -⟩ := Line.append_separator_inj (end_notMem_entries _)
    (end_notMem_entries _) h
  have hinj : Function.Injective entryLine := fun _ _ => entryLine_inj
  funext kind
  cases kind with
  | filesystem => exact hinj.list_map hfilesystem
  | network => exact hinj.list_map hnetwork
  | scope => exact hinj.list_map hscope

/-- Tables can be read back from their text. -/
theorem render_inj {tables tables' : AccessKind → Table} (hnamed : Named tables)
    (hnamed' : Named tables') (h : render tables = render tables') : tables = tables' := by
  have hlines : "\n".intercalate (renderLines tables) = "\n".intercalate (renderLines tables') := by
    have hlist := congrArg String.toList h
    rw [render, render, String.toList_append, String.toList_append] at hlist
    exact String.toList_inj.mp (List.append_cancel_right hlist)
  have hne : ∀ tables, renderLines tables ≠ [] := by
    intro tables
    rw [renderLines, categories, List.flatMap_cons, renderTable_eq]
    exact List.cons_ne_nil _ _
  exact renderLines_inj (Line.intercalate_inj (show "\n".toList = ['\n'] from rfl) (hne _) (hne _)
    hnamed.newline_notMem hnamed'.newline_notMem hlines)

end Landlock.Generator
