import LandlockObservability.ForStd.Except
import LandlockObservability.ForStd.Items
import LandlockObservability.Spec.GeneratorText

/-!
# The generator fails closed

When the generator succeeds, each table has one entry for each constant of its category, with
the shift of its definition and the name that its list gives it, and nothing else.  Every loop
of the generator is a fold that may fail; what it has collected is a function of the lines or
entries that it has taken.
-/

namespace Landlock.Generator

section

variable (py : Python)

/-! ## What the headers say -/

/-- The definitions in a header: names and bodies. -/
def defines (lines : List String) : List (String × String) := lines.filterMap py.defineRe

/-- The definitions in a header whose names have a property. -/
def definesWith (p : String → Bool) (lines : List String) : List (String × String) :=
  (defines py lines).filter fun define => p define.1

/-- The constants of a category in a header, with their expressions. -/
def constantsOf (kind : AccessKind) (lines : List String) : List (String × String) :=
  definesWith py (startsWith (macroPrefix kind)) lines

/-- The bodies of the name list of a category in a header. -/
def listsOf (kind : AccessKind) (lines : List String) : List String :=
  (definesWith py (· = listMacro kind) lines).map Prod.snd

/-- The shift in an expression. -/
def shiftOf (expression : String) : Option Nat := (py.bitRe expression).map int

/-- What the table of a category is, for the lines of the two headers and the body of the name
    list. -/
structure Emitted (uapi internal : List String) (kind : AccessKind) (body : String)
    (table : Table) : Prop where
  /-- There is one name list. -/
  list : listsOf py kind internal = [body]
  /-- No constant is defined twice. -/
  constants_nodup : ((constantsOf py kind uapi).map Prod.fst).Nodup
  /-- No constant is listed twice. -/
  entries_nodup : ((py.findEntries body).map Prod.fst).Nodup
  /-- The list names the constants of the category. -/
  same_constants : ∀ constant, constant ∈ (constantsOf py kind uapi).map Prod.fst ↔
    constant ∈ (py.findEntries body).map Prod.fst
  /-- Every constant is a single bit. -/
  shifts : ∀ define ∈ constantsOf py kind uapi, ∃ shift < 64, shiftOf py define.2 = some shift
  /-- The table has one entry for each constant, with its shift and its name. -/
  entries : (table.map fun entry => (some entry.1, some entry.2)).Perm
    ((constantsOf py kind uapi).map fun define =>
      (shiftOf py define.2, (py.findEntries body).lookup define.1))
  ascending : table.Pairwise fun entry entry' => entry.1 < entry'.1
  shift_lt : ∀ entry ∈ table, entry.1 < 64
  names_nodup : (table.map Prod.snd).Nodup
  names : ∀ entry ∈ table, isName entry.2 = true

/-- A flaw of the headers, for one category. -/
inductive Flaw (uapi internal : List String) (kind : AccessKind) : Prop where
  /-- A constant is missing from its list. -/
  | missing {constant expression : String}
      (hdefined : (constant, expression) ∈ constantsOf py kind uapi)
      (hmissing : ∀ body ∈ listsOf py kind internal, ∀ name,
        (constant, name) ∉ py.findEntries body)
  /-- A constant is listed twice. -/
  | listedTwice {body constant : String} (hbody : body ∈ listsOf py kind internal)
      (htwice : 2 ≤ ((py.findEntries body).map Prod.fst).count constant)
  /-- A constant is defined twice. -/
  | definedTwice {constant : String}
      (htwice : 2 ≤ ((constantsOf py kind uapi).map Prod.fst).count constant)
  /-- Two constants share a bit. -/
  | sharedBit {define define' : String × String} {shift : Nat}
      (hpair : [define, define'].Sublist (constantsOf py kind uapi))
      (hshift : shiftOf py define.2 = some shift) (hshift' : shiftOf py define'.2 = some shift)
  /-- A constant is not a single bit below 64. -/
  | notSingleBit {constant expression : String}
      (hdefined : (constant, expression) ∈ constantsOf py kind uapi)
      (hbit : ∀ shift, shiftOf py expression = some shift → 64 ≤ shift)
  /-- The list names something that is not a constant of the category. -/
  | extra {body constant name : String} (hbody : body ∈ listsOf py kind internal)
      (hentry : (constant, name) ∈ py.findEntries body)
      (hextra : constant ∉ (constantsOf py kind uapi).map Prod.fst)

end

section Defines

variable {py : Python} {p : String → Bool}

/-- A header is read line by line. -/
private theorem definesWith_append (lines lines' : List String) :
    definesWith py p (lines ++ lines') = definesWith py p lines ++ definesWith py p lines' := by
  rw [definesWith, defines, List.filterMap_append, List.filter_append]
  rfl

/-- A line without a definition. -/
private theorem definesWith_of_none {line : String} (h : py.defineRe line = none) :
    definesWith py p [line] = [] := by
  rw [definesWith, defines, List.filterMap_cons_none h]
  rfl

/-- A line with one. -/
private theorem definesWith_of_some {line : String} {define : String × String}
    (h : py.defineRe line = some define) :
    definesWith py p [line] = if p define.1 then [define] else [] := by
  rw [definesWith, defines, List.filterMap_cons_some h, List.filterMap_nil, List.filter_cons]
  rfl

end Defines

/-! ## `parse_uapi` -/

section Uapi

/-- A constant has the prefix of one category at most. -/
private theorem eq_of_startsWith {kind kind' : AccessKind} {name : String}
    (h : startsWith (macroPrefix kind) name = true)
    (h' : startsWith (macroPrefix kind') name = true) : kind = kind' := by
  rcases List.prefix_or_prefix_of_prefix (List.isPrefixOf_iff_prefix.mp h)
    (List.isPrefixOf_iff_prefix.mp h') with hle | hle
  · revert hle
    cases kind <;> cases kind' <;> decide
  · revert hle
    cases kind <;> cases kind' <;> decide

variable {py : Python}

variable (py) in
/-- What a line adds to the constants. -/
inductive UapiLine (constants : Constants) (line : String) : Constants → Prop where
  /-- The line defines no constant. -/
  | skip (hnone : ∀ kind, constantsOf py kind [line] = []) : UapiLine constants line constants
  /-- The line defines a constant of one category. -/
  | add {kind : AccessKind} {name expression : String} {shift : Nat}
      (hline : ∀ kind', constantsOf py kind' [line] =
        if kind' = kind then [(name, expression)] else [])
      (hshift : shiftOf py expression = some shift) (hlt : shift < 64)
      (hname : name ∉ (constants kind).map Prod.fst)
      (hbit : shift ∉ (constants kind).map Prod.snd) :
      UapiLine constants line
        (Function.update constants kind (constants kind ++ [(name, shift)]))

/-- A constant that is added is a new single bit. -/
private theorem addConstant_eq_ok {constants constants' : Constants} {kind : AccessKind}
    {name expression : String}
    (h : addConstant py constants kind name expression = .ok constants') :
    ∃ shift < 64, shiftOf py expression = some shift ∧ name ∉ (constants kind).map Prod.fst ∧
      shift ∉ (constants kind).map Prod.snd ∧
      constants' = Function.update constants kind (constants kind ++ [(name, shift)]) := by
  rw [addConstant] at h
  cases hdigits : py.bitRe expression with
  | none =>
    rw [hdigits] at h
    cases h
  | some digits =>
    rw [hdigits] at h
    simp only at h
    -- The checks of the source, in its order
    by_cases hlt : 64 ≤ int digits
    · rw [if_pos hlt] at h
      cases h
    by_cases hname : name ∈ (constants kind).map Prod.fst
    · rw [if_neg hlt, if_pos hname] at h
      cases h
    rw [if_neg hlt, if_neg hname] at h
    cases hother : (constants kind).find? fun other => other.2 = int digits with
    | some other =>
      rw [hother] at h
      cases h
    | none =>
      rw [hother] at h
      refine ⟨int digits, Nat.lt_of_not_le hlt, by rw [shiftOf, hdigits]; rfl, hname, ?_,
        (Except.ok.inj h).symm⟩
      intro hmem
      obtain ⟨other, hmem, hshift⟩ := List.mem_map.mp hmem
      exact List.find?_eq_none.mp hother other hmem (decide_eq_true hshift)

/-- A line that is accepted defines no constant, or a new one. -/
private theorem parseUapiLine_spec {constants constants' : Constants} {line : String}
    (h : parseUapiLine py constants line = .ok constants') :
    UapiLine py constants line constants' := by
  rw [parseUapiLine] at h
  cases hdefine : py.defineRe line with
  | none =>
    rw [hdefine] at h
    cases h
    exact .skip fun _ => definesWith_of_none hdefine
  | some define =>
    rw [hdefine] at h
    simp only at h
    cases hfind : categories.find? fun kind => startsWith (macroPrefix kind) define.1 with
    | none =>
      rw [hfind] at h
      -- No category has the prefix
      have hnone : ∀ kind, constantsOf py kind [line] = [] := by
        intro kind
        have hnot := List.find?_eq_none.mp hfind kind (by cases kind <;> decide)
        rw [constantsOf, definesWith_of_some hdefine, if_neg hnot]
      simp only at h
      split at h
      · cases h
      · cases h
        exact .skip hnone
    -- The constant belongs to the category whose prefix it has
    | some kind =>
      rw [hfind] at h
      have hstarts := List.find?_some hfind
      obtain ⟨shift, hlt, hshift, hname, hbit, rfl⟩ := addConstant_eq_ok h
      refine .add (fun kind' => ?_) hshift hlt hname hbit
      rw [constantsOf, definesWith_of_some hdefine]
      by_cases hkind : kind' = kind
      · subst hkind
        rw [if_pos rfl, if_pos hstarts]
      · rw [if_neg hkind, if_neg fun h' => hkind (eq_of_startsWith h' hstarts)]

variable (py) in
/-- What was collected of a category: its constants with their shifts. -/
structure Collected (lines : List String) (kind : AccessKind) (collected : List (String × Nat)) :
    Prop where
  items : collected.map (fun item => (item.1, some item.2)) =
    (constantsOf py kind lines).map fun define => (define.1, shiftOf py define.2)
  names_nodup : (collected.map Prod.fst).Nodup
  shifts_nodup : (collected.map Prod.snd).Nodup
  shift_lt : ∀ item ∈ collected, item.2 < 64

/-- An accepted line keeps what was collected right. -/
theorem Collected.line {lines : List String} {constants constants' : Constants} {line : String}
    (h : ∀ kind, Collected py lines kind (constants kind))
    (hline : UapiLine py constants line constants') (kind : AccessKind) :
    Collected py (lines ++ [line]) kind (constants' kind) := by
  have hkind := h kind
  cases hline with
  | skip hnone =>
    refine ⟨?_, hkind.names_nodup, hkind.shifts_nodup, hkind.shift_lt⟩
    rw [constantsOf, definesWith_append, ← constantsOf, ← constantsOf, hnone, List.append_nil]
    exact hkind.items
  -- The other categories stay as they are
  | @add kind' name expression shift hadd hshift hlt hname hbit =>
    by_cases heq : kind = kind'
    · subst heq
      rw [Function.update_self]
      refine ⟨?_, ?_, ?_, ?_⟩
      · rw [constantsOf, definesWith_append, ← constantsOf, ← constantsOf, hadd, if_pos rfl,
          List.map_append, List.map_append, hkind.items]
        simp [hshift]
      · exact Items.nodup_map_concat hkind.names_nodup hname
      · exact Items.nodup_map_concat hkind.shifts_nodup hbit
      · intro item hitem
        rcases List.mem_append.mp hitem with hitem | hitem
        · exact hkind.shift_lt item hitem
        · rw [List.mem_singleton.mp hitem]
          exact hlt
    · rw [Function.update_of_ne heq]
      refine ⟨?_, hkind.names_nodup, hkind.shifts_nodup, hkind.shift_lt⟩
      rw [constantsOf, definesWith_append, ← constantsOf, ← constantsOf, hadd, if_neg heq,
        List.append_nil]
      exact hkind.items

/-- What `parse_uapi` has collected when it succeeds. -/
private theorem collected_of_parseUapi {text : String} {constants : Constants}
    (h : parseUapi py text = .ok constants) :
    ∃ lines, logicalLines py text = .ok lines ∧
      ∀ kind, Collected py lines kind (constants kind) := by
  obtain ⟨lines, hlines, h⟩ := Except.bind_eq_ok_iff.mp h
  obtain ⟨constants', hfold, h⟩ := Except.bind_eq_ok_iff.mp h
  have hstart : ∀ kind, Collected py [] kind [] :=
    fun _ => ⟨rfl, List.nodup_nil, List.nodup_nil, List.forall_mem_nil _⟩
  -- The loop over the lines, for all categories at once
  have hcollected := Except.foldlM_invariant (s := fun _ => [])
    (I := fun lines (constants : Constants) => ∀ kind, Collected py lines kind (constants kind))
    (fun _ _ _ _ hs hline => Collected.line hs (parseUapiLine_spec hline)) hstart hfold
  refine ⟨lines, hlines, ?_⟩
  split at h
  · cases h
  · cases h
    exact hcollected

end Uapi

/-! ## `parse_lists` -/

section Lists

variable {py : Python}

/-- The definitions of name lists in a header. -/
def listDefinitions (py : Python) (lines : List String) : List (String × String) :=
  definesWith py (· ∈ categories.map listMacro) lines

/-- A definition of a name list is added if it is new. -/
private theorem parseDefinition_eq_ok {lines : List String}
    {definitions definitions' : List (String × String)} {line : String}
    (h : parseDefinition py definitions line = .ok definitions')
    (hlines : definitions = listDefinitions py lines) (hnodup : (definitions.map Prod.fst).Nodup) :
    definitions' = listDefinitions py (lines ++ [line]) ∧ (definitions'.map Prod.fst).Nodup := by
  rw [listDefinitions, definesWith_append, ← listDefinitions, ← hlines]
  rw [parseDefinition] at h
  cases hdefine : py.defineRe line with
  | none =>
    rw [hdefine] at h
    cases h
    rw [definesWith_of_none hdefine]
    exact ⟨(List.append_nil _).symm, hnodup⟩
  | some define =>
    rw [hdefine] at h
    rw [definesWith_of_some hdefine]
    simp only [decide_eq_true_eq] at h ⊢
    -- Definitions of other names are skipped
    by_cases hlist : define.1 ∈ categories.map listMacro
    · rw [if_neg (not_not_intro hlist)] at h
      rw [if_pos hlist]
      by_cases hname : define.1 ∈ definitions.map Prod.fst
      · rw [if_pos hname] at h
        cases h
      · rw [if_neg hname] at h
        cases h
        exact ⟨rfl, Items.nodup_map_concat hnodup hname⟩
    · rw [if_pos hlist] at h
      rw [if_neg hlist]
      cases h
      exact ⟨(List.append_nil _).symm, hnodup⟩

/-- What is checked of the entries of a list. -/
structure Listed (listed : List (String × String)) : Prop where
  constants_nodup : (listed.map Prod.fst).Nodup
  names_nodup : (listed.map Prod.snd).Nodup
  names : ∀ entry ∈ listed, isName entry.2 = true

/-- An entry that is taken is added. -/
theorem Listed.entry {list : String} {listed listed' : List (String × String)}
    {entry : String × String} (h : Listed listed)
    (hentry : parseEntry list listed entry = .ok listed') :
    listed' = listed ++ [entry] ∧ Listed listed' := by
  simp only [parseEntry] at hentry
  -- Each of the three checks ends the run if it fails
  by_cases hconstant : entry.1 ∈ listed.map Prod.fst
  · rw [if_pos hconstant] at hentry
    cases hentry
  by_cases hname : entry.2 ∈ listed.map Prod.snd
  · rw [if_neg hconstant, if_pos hname] at hentry
    cases hentry
  by_cases hisName : isName entry.2 = true
  · rw [if_neg hconstant, if_neg hname, if_pos hisName] at hentry
    cases hentry
    refine ⟨rfl, Items.nodup_map_concat h.constants_nodup hconstant,
      Items.nodup_map_concat h.names_nodup hname, ?_⟩
    intro entry' hentry'
    rcases List.mem_append.mp hentry' with hentry' | hentry'
    · exact h.names entry' hentry'
    · rw [List.mem_singleton.mp hentry']
      exact hisName
  · rw [if_neg hconstant, if_neg hname, if_neg hisName] at hentry
    cases hentry

/-- The loop takes all entries. -/
private theorem listed_of_foldlM {list : String} {entries listed : List (String × String)}
    (h : entries.foldlM (parseEntry list) [] = .ok listed) : listed = entries ∧ Listed entries := by
  refine Except.foldlM_invariant (I := fun entries listed => listed = entries ∧ Listed entries)
    ?_ ⟨rfl, List.nodup_nil, List.nodup_nil, List.forall_mem_nil _⟩ h
  rintro taken _ entry listed' ⟨rfl, hlisted⟩ hentry
  obtain ⟨rfl, hlisted'⟩ := hlisted.entry hentry
  exact ⟨rfl, hlisted'⟩

instance : Std.TransCmp compareShifts :=
  inferInstanceAs (Std.TransCmp (compareOn (Prod.fst : Nat × String → Nat)))

/-- Different shifts are sorted strictly. -/
private theorem pairwise_lt_sortBy {table : Table} (hnodup : (table.map Prod.fst).Nodup) :
    (Grouping.sortBy compareShifts table).Pairwise fun entry entry' => entry.1 < entry'.1 := by
  have hperm : ((Grouping.sortBy compareShifts table).map Prod.fst).Nodup :=
    ((Grouping.sortBy_perm table).map Prod.fst).nodup_iff.mpr hnodup
  refine ((Grouping.pairwise_sortBy table).and (List.pairwise_map.mp hperm)).imp ?_
  intro entry entry' h
  have hle : entry.1 ≤ entry'.1 := Nat.isLE_compare.mp h.1
  exact Nat.lt_of_le_of_ne hle h.2

/-- If nothing is left to report, every element was found. -/
private theorem sortBy_filter_isEmpty {l l' : List String}
    (h : (Grouping.sortBy compare (l.filter (· ∉ l'))).isEmpty = true) : ∀ a ∈ l, a ∈ l' := by
  intro a ha
  by_contra hnot
  have hmem : a ∈ Grouping.sortBy compare (l.filter (· ∉ l')) :=
    Grouping.mem_sortBy.mpr (List.mem_filter.mpr ⟨ha, decide_eq_true hnot⟩)
  rw [List.isEmpty_iff.mp h] at hmem
  cases hmem

/-- A table joins the listed names with the shifts. -/
private theorem tableOf_eq_ok {list : String} {constants : List (String × Nat)}
    {listed : List (String × String)} {table : Table}
    (h : tableOf list constants listed = .ok table) :
    (∀ constant, constant ∈ constants.map Prod.fst ↔ constant ∈ listed.map Prod.fst) ∧
      ∃ entries : Table, table = Grouping.sortBy compareShifts entries ∧
        entries.map (fun entry => (some entry.1, some entry.2)) =
          listed.map fun item => (constants.lookup item.1, some item.2) := by
  simp only [tableOf] at h
  split at h
  case isTrue => cases h
  case isFalse hmissing =>
    split at h
    case isTrue => cases h
    case isFalse hextra =>
      -- The two reports were empty
      obtain ⟨entries, hentries, h⟩ := Except.bind_eq_ok_iff.mp h
      have hdefined := sortBy_filter_isEmpty (by simpa using hmissing)
      have hpresent := sortBy_filter_isEmpty (by simpa using hextra)
      refine ⟨fun constant => ⟨hdefined constant, hpresent constant⟩, entries,
        (Except.ok.inj h).symm, ?_⟩
      refine Except.map_eq_map_of_mapM (fun item entry hentry => ?_) hentries
      split at hentry
      case h_1 shift hshift =>
        cases hentry
        rw [hshift]
      case h_2 => cases hentry

/-- What `parse_lists` has checked for a category when it succeeds. -/
private theorem parseList_eq_ok {constants : Constants} {definitions : List (String × String)}
    {kind : AccessKind} {table : Table}
    (h : parseList py constants definitions kind = .ok table) :
    ∃ body, definitions.lookup (listMacro kind) = some body ∧
      Listed (py.findEntries body) ∧
      tableOf (listMacro kind) (constants kind) (py.findEntries body) = .ok table := by
  simp only [parseList] at h
  cases hbody : definitions.lookup (listMacro kind) with
  | none =>
    rw [hbody] at h
    cases h
  | some body =>
    rw [hbody] at h
    simp only at h
    split at h
    case isTrue => cases h
    case isFalse =>
      obtain ⟨listed, hlisted, h⟩ := Except.bind_eq_ok_iff.mp h
      obtain ⟨rfl, hentries⟩ := listed_of_foldlM hlisted
      exact ⟨body, rfl, hentries, h⟩

end Lists

/-! ## `generate` -/

section Generate

variable {py : Python}

/-- A name list that is found is the only one. -/
private theorem listsOf_of_lookup {lines : List String} {kind : AccessKind} {body : String}
    (hnodup : ((listDefinitions py lines).map Prod.fst).Nodup)
    (h : (listDefinitions py lines).lookup (listMacro kind) = some body) :
    listsOf py kind lines = [body] := by
  have hfilter := Items.filter_eq_singleton hnodup ((Items.lookup_eq_some_iff hnodup).mp h)
  have hlist : listMacro kind ∈ categories.map listMacro :=
    List.mem_map_of_mem (by cases kind <;> decide)
  have hsame : (listDefinitions py lines).filter (fun define => define.1 = listMacro kind) =
      definesWith py (· = listMacro kind) lines := by
    rw [listDefinitions, definesWith, definesWith, List.filter_filter]
    refine List.filter_congr fun define _ => ?_
    by_cases hdefine : define.1 = listMacro kind
    · simp [hdefine, hlist]
    · simp [hdefine]
  rw [listsOf, ← hsame, hfilter]
  rfl

/-- The constants that were collected are those of the header. -/
theorem Collected.names {lines : List String} {kind : AccessKind}
    {collected : List (String × Nat)} (h : Collected py lines kind collected) :
    collected.map Prod.fst = (constantsOf py kind lines).map Prod.fst := by
  have hfst := congrArg (List.map Prod.fst) h.items
  rwa [List.map_map, List.map_map] at hfst

/-- Each of them is a single bit. -/
private theorem Collected.exists_shift {lines : List String} {kind : AccessKind}
    {collected : List (String × Nat)} (h : Collected py lines kind collected)
    {define : String × String} (hdefine : define ∈ constantsOf py kind lines) :
    ∃ shift < 64, shiftOf py define.2 = some shift := by
  have hmem : (define.1, shiftOf py define.2) ∈
      collected.map fun item => (item.1, some item.2) := by
    rw [h.items]
    exact List.mem_map.mpr ⟨define, hdefine, rfl⟩
  obtain ⟨item, hitem, heq⟩ := List.mem_map.mp hmem
  exact ⟨item.2, h.shift_lt item hitem, (Prod.mk.inj heq).2.symm⟩

/-- The table of a category that was parsed. -/
private theorem emitted_of_parseList {uapi internal : List String} {constants : Constants}
    {kind : AccessKind} {table : Table} (hcollected : Collected py uapi kind (constants kind))
    (hnodup : ((listDefinitions py internal).map Prod.fst).Nodup)
    (h : parseList py constants (listDefinitions py internal) kind = .ok table) :
    ∃ body, Emitted py uapi internal kind body table := by
  obtain ⟨body, hbody, hlisted, htable⟩ := parseList_eq_ok h
  obtain ⟨hsame, entries, rfl, hentries⟩ := tableOf_eq_ok htable
  have hsorted : (Grouping.sortBy compareShifts entries).Perm entries := Grouping.sortBy_perm _
  -- The constants and the listed names are joined over their common keys
  have hjoin := Items.join_perm hcollected.names_nodup hlisted.constants_nodup hsame
  rw [← hentries] at hjoin
  have hshifts : (entries.map Prod.fst).Perm ((constants kind).map Prod.snd) := by
    simpa [List.filterMap_map, Function.comp_def] using hjoin.filterMap Prod.fst
  have hnames : entries.map Prod.snd = (py.findEntries body).map Prod.snd := by
    simpa [List.filterMap_map, Function.comp_def] using
      congrArg (List.filterMap Prod.snd) hentries
  refine ⟨body, listsOf_of_lookup hnodup hbody, hcollected.names ▸ hcollected.names_nodup,
    hlisted.constants_nodup, hcollected.names ▸ hsame, fun _ => hcollected.exists_shift, ?_,
    pairwise_lt_sortBy (hshifts.nodup_iff.mpr hcollected.shifts_nodup), ?_, ?_, ?_⟩
  · have hitems := congrArg
      (List.map fun item => (item.2, (py.findEntries body).lookup item.1)) hcollected.items
    rw [List.map_map, List.map_map] at hitems
    exact (hsorted.map _).trans (hjoin.trans (List.Perm.of_eq hitems))
  · intro entry hentry
    have hshift : entry.1 ∈ (constants kind).map Prod.snd :=
      hshifts.mem_iff.mp (List.mem_map_of_mem (hsorted.mem_iff.mp hentry))
    obtain ⟨item, hitem, heq⟩ := List.mem_map.mp hshift
    exact heq ▸ hcollected.shift_lt item hitem
  · rw [(hsorted.map Prod.snd).nodup_iff, hnames]
    exact hlisted.names_nodup
  · intro entry hentry
    have hname : entry.2 ∈ (py.findEntries body).map Prod.snd :=
      hnames ▸ List.mem_map_of_mem (hsorted.mem_iff.mp hentry)
    obtain ⟨listed, hmem, heq⟩ := List.mem_map.mp hname
    exact heq ▸ hlisted.names listed hmem

/-- The loop over the categories parses each of them. -/
private theorem forall_of_foldlM_update {parse : AccessKind → Except String Table}
    {kinds : List AccessKind}
    {tables tables' : AccessKind → Table}
    (h : kinds.foldlM (fun tables kind => (parse kind).map (Function.update tables kind)) tables =
      .ok tables') : ∀ kind ∈ kinds, parse kind = .ok (tables' kind) := by
  refine Except.foldlM_invariant (I := fun kinds (tables : AccessKind → Table) =>
    ∀ kind ∈ kinds, parse kind = .ok (tables kind)) ?_ (List.forall_mem_nil _) h
  intro done tables kind tables' hdone hkind kind' hkind'
  obtain ⟨table, htable, rfl⟩ := Except.map_eq_ok_iff.mp hkind
  by_cases heq : kind' = kind
  · subst heq
    rw [Function.update_self]
    exact htable
  · rw [Function.update_of_ne heq]
    exact hdone kind' ((List.mem_append.mp hkind').resolve_right (by simpa using heq))

/-- What the generator has done when it succeeds. -/
theorem emitted_of_generate {uapi internal text : String}
    (h : generate py uapi internal = .ok text) :
    ∃ uapiLines internalLines tables, logicalLines py uapi = .ok uapiLines ∧
      logicalLines py internal = .ok internalLines ∧ text = render tables ∧
      ∀ kind, ∃ body, Emitted py uapiLines internalLines kind body (tables kind) := by
  obtain ⟨constants, hconstants, h⟩ := Except.bind_eq_ok_iff.mp h
  obtain ⟨tables, htables, h⟩ := Except.bind_eq_ok_iff.mp h
  obtain ⟨uapiLines, huapi, hcollected⟩ := collected_of_parseUapi hconstants
  obtain ⟨internalLines, hinternal, htables⟩ := Except.bind_eq_ok_iff.mp htables
  obtain ⟨definitions, hdefinitions, htables⟩ := Except.bind_eq_ok_iff.mp htables
  -- The loop over the lines of the second header
  obtain ⟨rfl, hnodup⟩ := Except.foldlM_invariant
    (I := fun lines definitions =>
      definitions = listDefinitions py lines ∧ (definitions.map Prod.fst).Nodup)
    (fun _ _ _ _ hs hline => parseDefinition_eq_ok hline hs.1 hs.2) ⟨rfl, List.nodup_nil⟩
    hdefinitions
  have hparsed := forall_of_foldlM_update htables
  refine ⟨uapiLines, internalLines, tables, huapi, hinternal, (Except.ok.inj h).symm, ?_⟩
  intro kind
  exact emitted_of_parseList (hcollected kind) hnodup (hparsed kind (by cases kind <;> decide))

/-- The names of emitted tables are names. -/
theorem named_of_emitted {uapi internal : List String} {tables : AccessKind → Table}
    (h : ∀ kind, ∃ body, Emitted py uapi internal kind body (tables kind)) : Named tables := by
  intro kind
  obtain ⟨body, hbody⟩ := h kind
  exact hbody.names

/-- The bits of the constants are different. -/
private theorem Emitted.shifts_nodup {uapi internal : List String} {kind : AccessKind}
    {body : String}
    {table : Table} (h : Emitted py uapi internal kind body table) :
    ((constantsOf py kind uapi).map fun define => shiftOf py define.2).Nodup := by
  have hperm := h.entries.map Prod.fst
  rw [List.map_map, List.map_map] at hperm
  exact hperm.nodup_iff.mp (List.pairwise_map.mpr
    (h.ascending.imp fun hlt heq => Nat.ne_of_lt hlt (Option.some.inj heq)))

/-- Headers with a flaw are not accepted. -/
private theorem Emitted.not_flaw {uapi internal : List String} {kind : AccessKind} {body : String}
    {table : Table} (h : Emitted py uapi internal kind body table) :
    ¬ Flaw py uapi internal kind := by
  have hbodies : ∀ body', body' ∈ listsOf py kind internal ↔ body' = body := by
    intro body'
    rw [h.list, List.mem_singleton]
  intro hflaw
  -- Each flaw contradicts one of the checks
  cases hflaw with
  | missing hdefined hmissing =>
    obtain ⟨⟨constant, name⟩, hentry, rfl⟩ :=
      List.mem_map.mp ((h.same_constants _).mp (Items.mem_keys_of_mem hdefined))
    exact hmissing body ((hbodies body).mpr rfl) name hentry
  | @listedTwice body' constant hbody htwice =>
    obtain rfl := (hbodies body').mp hbody
    have hle := List.nodup_iff_count_le_one.mp h.entries_nodup constant
    omega
  | @definedTwice constant htwice =>
    have hle := List.nodup_iff_count_le_one.mp h.constants_nodup constant
    omega
  | sharedBit hpair hshift hshift' =>
    have hnodup := h.shifts_nodup.sublist (hpair.map fun define => shiftOf py define.2)
    simp [hshift, hshift'] at hnodup
  | notSingleBit hdefined hbit =>
    obtain ⟨shift, hlt, hshift⟩ := h.shifts _ hdefined
    exact absurd (hbit shift hshift) (Nat.not_le.mpr hlt)
  | @extra body' constant name hbody hentry hextra =>
    obtain rfl := (hbodies body').mp hbody
    exact hextra ((h.same_constants constant).mpr (Items.mem_keys_of_mem hentry))

end Generate

/-- The generator fails closed: the tables that it emits, which can be read back from its text,
    have one entry for each constant of their category, and headers with a flaw make it fail. -/
theorem generate_fails_closed (py : Python) (uapi internal : String) :
    (∀ text, generate py uapi internal = .ok text →
      ∃ uapiLines internalLines tables, logicalLines py uapi = .ok uapiLines ∧
        logicalLines py internal = .ok internalLines ∧ text = render tables ∧
        (∀ tables', Named tables' → text = render tables' → tables' = tables) ∧
        ∀ kind, ∃ body, Emitted py uapiLines internalLines kind body (tables kind)) ∧
    ∀ uapiLines internalLines kind, logicalLines py uapi = .ok uapiLines →
      logicalLines py internal = .ok internalLines → Flaw py uapiLines internalLines kind →
      ∃ error, generate py uapi internal = .error error := by
  constructor
  · intro text hgenerate
    obtain ⟨uapiLines, internalLines, tables, huapi, hinternal, htext, hemitted⟩ :=
      emitted_of_generate hgenerate
    refine ⟨uapiLines, internalLines, tables, huapi, hinternal, htext, ?_, hemitted⟩
    intro tables' hnamed' htext'
    exact render_inj hnamed' (named_of_emitted hemitted) (htext'.symm.trans htext)
  intro uapiLines internalLines kind huapi hinternal hflaw
  cases hgenerate : generate py uapi internal with
  | error error => exact ⟨error, rfl⟩
  | ok text =>
    obtain ⟨uapiLines', internalLines', tables, huapi', hinternal', _, hemitted⟩ :=
      emitted_of_generate hgenerate
    rw [huapi] at huapi'
    rw [hinternal] at hinternal'
    cases huapi'
    cases hinternal'
    obtain ⟨body, hbody⟩ := hemitted kind
    exact absurd hflaw hbody.not_flaw

/-- Headers whose lines are abbreviated: a constant of each category and its name. -/
def abbreviated : Python where
  spaceAfterBackslash _ := false
  defineRe
    | "f" => some ("LANDLOCK_ACCESS_FS_EXECUTE", "0")
    | "n" => some ("LANDLOCK_ACCESS_NET_BIND_TCP", "0")
    | "s" => some ("LANDLOCK_SCOPE_SIGNAL", "1")
    | "F" => some ("_LANDLOCK_ACCESS_FS_NAMES", "f")
    | "N" => some ("_LANDLOCK_ACCESS_NET_NAMES", "n")
    | "S" => some ("_LANDLOCK_SCOPE_NAMES", "s")
    | _ => none
  bitRe expression := some expression
  findEntries
    | "f" => [("LANDLOCK_ACCESS_FS_EXECUTE", "execute")]
    | "n" => [("LANDLOCK_ACCESS_NET_BIND_TCP", "bind_tcp")]
    | _ => [("LANDLOCK_SCOPE_SIGNAL", "signal")]
  removeEntries _ := ""
  strip text := text

example : (generate abbreviated "f\nn\ns\n" "F\nN\nS\n").isOk = true := by decide +kernel

end Landlock.Generator
