import LandlockObservability.Model.Batch

/-!
# The records of batch mode

How a reader of the output tells the records apart: by the text they start with.  A
record about a domain or a ruleset starts with its ID, and the ID can be read back.

* `isDomainRecord_formatDomain`, `isDropRecord_formatDropRuleset`: a record is about the
  ID that it was written for, and about no other.
* `recordTag_formatDomain` and the like: no record is of two kinds.
-/

namespace Landlock

/-- A `DOMAIN` record about this domain. -/
def isDomainRecord (id : DomainId) (record : String) : Bool :=
  ("DOMAIN domain=" ++ id.display ++ " ").toList.isPrefixOf record.toList

/-- A `DROP_RULESET` record about this ruleset. -/
def isDropRecord (id : RulesetId) (record : String) : Bool :=
  ("DROP_RULESET ruleset=" ++ id.display ++ ".").toList.isPrefixOf record.toList

/-- A `DENIAL` record. -/
def isDenialRecord (record : String) : Bool := "DENIAL ".toList.isPrefixOf record.toList

/-- A `STATS` record. -/
def isStatsRecord (record : String) : Bool := "STATS ".toList.isPrefixOf record.toList

/-! ## Identities -/

/-- An ID can be read back. -/
theorem LandlockId.display_inj {K : LandlockIdKind} {a b : LandlockId K}
    (h : a.display = b.display) : a = b := by
  have hvalue : a.value.toNat = b.value.toNat := Numeral.text_inj (by omega) (by omega) h
  cases a
  cases b
  cases UInt64.toNat_inj.mp hvalue
  rfl

/-- An ID is written with digits only. -/
private theorem notMem_display {K : LandlockIdKind} (id : LandlockId K) {c : Char}
    (hc : ∀ digit < 16, c ≠ Nat.digitChar digit) : c ∉ id.display.toList :=
  Numeral.notMem_text (by omega) (by omega) hc

/-- A text that starts with a label and an ID, up to a separator, starts with no other
    ID. -/
private theorem isPrefixOf_display {K : LandlockIdKind} (label : List Char) {separator : Char}
    (hseparator : ∀ digit < 16, separator ≠ Nat.digitChar digit) (id id' : LandlockId K)
    (rest : List Char) :
    (label ++ (id.display.toList ++ [separator])).isPrefixOf
      (label ++ (id'.display.toList ++ separator :: rest)) = decide (id' = id) := by
  rw [Bool.eq_iff_iff, List.isPrefixOf_iff_prefix, decide_eq_true_iff,
    List.prefix_append_right_inj]
  constructor
  · intro hstart
    have hdisplay := Numeral.eq_of_isPrefix (notMem_display id hseparator)
      (notMem_display id' hseparator) hstart
    exact (LandlockId.display_inj (String.toList_inj.mp hdisplay)).symm
  · intro heq
    rw [heq]
    exact ⟨rest, by simp⟩

/-- What a `DOMAIN` record starts with. -/
private theorem toList_formatDomain (domain : DomainState) :
    ∃ rest, (formatDomain domain).toList =
      "DOMAIN domain=".toList ++ (domain.id.display.toList ++ ' ' :: rest) := by
  unfold formatDomain
  simp only [String.toList_append, List.append_assoc]
  exact ⟨_, rfl⟩

/-- A `DOMAIN` record is about the domain that it was written for, and about no other. -/
theorem isDomainRecord_formatDomain (id : DomainId) (domain : DomainState) :
    isDomainRecord id (formatDomain domain) = decide (domain.id = id) := by
  obtain ⟨rest, hrest⟩ := toList_formatDomain domain
  unfold isDomainRecord
  rw [hrest, String.toList_append, String.toList_append, List.append_assoc]
  exact isPrefixOf_display _ (by decide) id domain.id rest

/-- A `DROP_RULESET` record is about the ruleset that it was written for, and about no
    other. -/
theorem isDropRecord_formatDropRuleset (id : RulesetId) (version : RulesetVersion) :
    isDropRecord id (formatDropRuleset version) = decide (version.rulesetId = id) := by
  unfold isDropRecord formatDropRuleset RulesetVersion.display
  simp only [String.toList_append, List.append_assoc]
  exact isPrefixOf_display _ (by decide) id version.rulesetId _

/-- Records about different versions of a ruleset differ. -/
theorem formatDropRuleset_inj {a b : RulesetVersion} (hid : a.rulesetId = b.rulesetId)
    (h : formatDropRuleset a = formatDropRuleset b) : a = b := by
  have hlist := congrArg String.toList h
  unfold formatDropRuleset RulesetVersion.display at hlist
  simp only [String.toList_append, hid, List.append_cancel_left_eq] at hlist
  have hversion : a.rulesetVersion.toNat = b.rulesetVersion.toNat :=
    Numeral.text_inj (by omega) (by omega) (String.toList_inj.mp hlist)
  cases a
  cases b
  cases hid
  cases UInt64.toNat_inj.mp hversion
  rfl

/-! ## Kinds -/

/-- The two characters that tell the kinds of records apart. -/
def recordTag (record : String) : List Char := record.toList.take 2

/-- A record has the kind of the text that it starts with. -/
private theorem recordTag_eq {start : List Char} {record : String} (hlength : 2 ≤ start.length)
    (h : start.isPrefixOf record.toList = true) : recordTag record = start.take 2 := by
  obtain ⟨rest, hrest⟩ := List.isPrefixOf_iff_prefix.mp h
  rw [recordTag, ← hrest, List.take_append_of_le_length hlength]

/-- The kind of a `DOMAIN` record, -/
theorem recordTag_of_isDomainRecord {id : DomainId} {record : String}
    (h : isDomainRecord id record = true) : recordTag record = ['D', 'O'] := by
  rw [isDomainRecord, String.toList_append, String.toList_append, List.append_assoc] at h
  exact recordTag_eq (by simp) h

/-- of a `DROP_RULESET` record, -/
theorem recordTag_of_isDropRecord {id : RulesetId} {record : String}
    (h : isDropRecord id record = true) : recordTag record = ['D', 'R'] := by
  rw [isDropRecord, String.toList_append, String.toList_append, List.append_assoc] at h
  exact recordTag_eq (by simp) h

/-- of a `DENIAL` record, -/
theorem recordTag_of_isDenialRecord {record : String} (h : isDenialRecord record = true) :
    recordTag record = ['D', 'E'] := recordTag_eq (by decide) h

/-- and of a `STATS` record. -/
theorem recordTag_of_isStatsRecord {record : String} (h : isStatsRecord record = true) :
    recordTag record = ['S', 'T'] := recordTag_eq (by decide) h

/-- The line of a domain is of its kind. -/
theorem recordTag_formatDomain (domain : DomainState) :
    recordTag (formatDomain domain) = ['D', 'O'] := by
  have hself : isDomainRecord domain.id (formatDomain domain) = true := by
    simp [isDomainRecord_formatDomain]
  exact recordTag_of_isDomainRecord hself

/-- So is the line of a dropped ruleset, -/
theorem recordTag_formatDropRuleset (version : RulesetVersion) :
    recordTag (formatDropRuleset version) = ['D', 'R'] := by
  have hself : isDropRecord version.rulesetId (formatDropRuleset version) = true := by
    simp [isDropRecord_formatDropRuleset]
  exact recordTag_of_isDropRecord hself

/-- that of the counters, -/
theorem isStatsRecord_formatStats (allocated total : Nat) (stats : Stats) :
    isStatsRecord (formatStats allocated total stats) = true := by
  unfold isStatsRecord formatStats
  simp only [String.toList_append, List.append_assoc]
  exact List.isPrefixOf_iff_prefix.mpr ⟨_, rfl⟩

/-- and that of a denial. -/
theorem isDenialRecord_formatDenial {kind : DenialKind} {denial : AggregatedDenial}
    {record : String} (h : formatDenial kind denial = some record) :
    isDenialRecord record = true := by
  unfold formatDenial at h
  obtain ⟨fields, -, rfl⟩ := Option.map_eq_some_iff.mp h
  unfold isDenialRecord
  simp only [String.toList_append, List.append_assoc]
  exact List.isPrefixOf_iff_prefix.mpr ⟨_, rfl⟩

end Landlock
