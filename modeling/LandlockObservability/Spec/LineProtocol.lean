import LandlockObservability.Spec.BatchMirror
import LandlockObservability.Spec.BatchTexts

/-!
# The line protocol of batch mode

The records of batch mode as their documentation has them: a name and fields `key=value` in a
fixed order, separated by single spaces.  Whatever the kernel captured, a record is one line,
its fields can be read back, and the fields of a domain and the target of a denial say what
they were written for.

## Key results

- `line_inj`: the values of a record can be read back
- `process_fits`: every record has one of the documented shapes
- `formatDomain_inj`, `fsTarget_inj`, `ptraceTarget_inj`, `signalTarget_inj`,
  `abstractUnixTarget_inj`: what is read back is what was written
-/

namespace Landlock

open Line

/-! ## Shapes -/

/-- The records that the documentation lists. -/
inductive RecordShape where
  | domain
  | dropRuleset
  | denial (kind : DenialKind)
  | stats
  deriving DecidableEq

/-- The key for the other domain of a denial between two domains. -/
def DenialKind.relationKey : DenialKind → Option String
  | ptrace => some "tracee_domain"
  | signal => some "target_domain"
  | abstractUnix => some "peer_domain"
  | _ => none

/-- A field of a record. -/
def recordField (key value : String) : String := key ++ "=" ++ value

/-- The value of a field can be read back. -/
private theorem recordField_inj {key value value' : String}
    (h : recordField key value = recordField key value') : value = value' := by
  rw [← String.toList_inj] at h ⊢
  simpa [recordField] using h

namespace RecordShape

/-- What a record starts with. -/
def opening : RecordShape → List String
  | domain => ["DOMAIN"]
  | dropRuleset => ["DROP_RULESET"]
  | denial kind => ["DENIAL", recordField "type" kind.label]
  | stats => ["STATS"]

/-- The keys of the fields that follow. -/
def keys : RecordShape → List String
  | domain => ["domain", "parent", "ruleset", "creator", "no_new_privs"]
  | dropRuleset => ["ruleset"]
  | denial kind => ["domain", "blockers", "target", "count", "age", "same_exec", "logged"] ++
    kind.relationKey.toList
  -- The counters of the kinds stand in parentheses
  | stats => ["domains", "denials", "(fs", "net", "ptrace", "signal", "abstract_unix"]

def tokenCount : RecordShape → Nat
  | domain => 6
  | dropRuleset => 2
  | denial kind => if kind.relationKey.isSome then 10 else 9
  | stats => 8

/-- The tokens of a record. -/
def tokens (shape : RecordShape) (values : List String) : List String :=
  shape.opening ++ List.zipWith recordField shape.keys values

/-- A record with these values. -/
def line (shape : RecordShape) (values : List String) : String :=
  " ".intercalate (shape.tokens values)

/-- The values of a record: visible texts, one for each key. -/
structure Values (shape : RecordShape) (values : List String) : Prop where
  length : values.length = shape.keys.length
  visible : ∀ value ∈ values, Consists visible value

/-- A line of this shape: printable, with the documented tokens. -/
structure Fits (shape : RecordShape) (record : String) : Prop where
  printable : Consists (fun c => c == ' ' || Landlock.visible c) record
  tokens : ∃ values, shape.Values values ∧ Line.tokens record = shape.tokens values
  count : (Line.tokens record).length = shape.tokenCount
  closed : shape = stats → record.toList.getLast? = some ')'

variable {shape : RecordShape} {values values' : List String}

/-- Fields of visible keys and values are visible. -/
private theorem visible_fields {keys values : List String}
    (hkeys : ∀ key ∈ keys, Consists Landlock.visible key)
    (hvalues : ∀ value ∈ values, Consists Landlock.visible value) :
    ∀ token ∈ List.zipWith recordField keys values, Consists Landlock.visible token := by
  induction keys generalizing values with
  | nil => exact fun token htoken => by cases htoken
  | cons key keys ih =>
    cases values with
    | nil => exact fun token htoken => by cases htoken
    | cons value values =>
      obtain ⟨hkey, hkeys⟩ := List.forall_mem_cons.mp hkeys
      obtain ⟨hvalue, hvalues⟩ := List.forall_mem_cons.mp hvalues
      exact List.forall_mem_cons.mpr
        ⟨(hkey.append (by decide)).append hvalue, ih hkeys hvalues⟩

/-- The tokens of a record have no space. -/
private theorem visible_tokens (h : shape.Values values) :
    ∀ token ∈ shape.tokens values, Consists Landlock.visible token := by
  have hopening : ∀ token ∈ shape.opening, Consists Landlock.visible token := by
    rcases shape with _ | _ | (_ | _ | _ | _ | _) | _ <;> decide
  have hkeys : ∀ key ∈ shape.keys, Consists Landlock.visible key := by
    rcases shape with _ | _ | (_ | _ | _ | _ | _) | _ <;> decide
  intro token htoken
  rcases List.mem_append.mp htoken with htoken | htoken
  · exact hopening token htoken
  · exact visible_fields hkeys h.visible token htoken

/-- A line is split into the tokens it was made of. -/
private theorem tokens_line (h : shape.Values values) :
    Line.tokens (shape.line values) = shape.tokens values := by
  refine tokens_intercalate ?_ fun token htoken hspace => ?_
  · rcases shape with _ | _ | _ | _ <;> simp [RecordShape.tokens, opening]
  · exact absurd (visible_tokens h token htoken ' ' hspace) (by decide)

/-- A line of visible values fits its shape. -/
private theorem fits_line (h : shape.Values values)
    (hclosed : shape = stats → (shape.line values).toList.getLast? = some ')') :
    shape.Fits (shape.line values) where
  printable := by
    refine Consists.intercalate (by decide) fun token htoken => ?_
    exact (visible_tokens h token htoken).mono fun c hc => by simp [hc]
  tokens := ⟨values, h, tokens_line h⟩
  count := by
    rw [tokens_line h, RecordShape.tokens, List.length_append, List.length_zipWith, h.length,
      Nat.min_self]
    rcases shape with _ | _ | (_ | _ | _ | _ | _) | _ <;> rfl
  closed := hclosed

/-- The values of a record can be read back. -/
theorem line_inj (h : shape.Values values) (h' : shape.Values values')
    (heq : shape.line values = shape.line values') : values = values' := by
  have htokens := congrArg Line.tokens heq
  rw [tokens_line h, tokens_line h', RecordShape.tokens, RecordShape.tokens] at htokens
  -- Both start in the same way; the fields are compared one by one
  have hfields := List.append_cancel_left htokens
  have hlength := h.length
  have hlength' := h'.length
  generalize shape.keys = keys at hfields hlength hlength'
  clear h h' heq htokens
  induction keys generalizing values values' with
  | nil =>
    rw [List.length_eq_zero_iff.mp hlength, List.length_eq_zero_iff.mp hlength']
  | cons key keys ih =>
    obtain ⟨value, values, rfl⟩ := List.exists_cons_of_length_eq_add_one hlength
    obtain ⟨value', values', rfl⟩ := List.exists_cons_of_length_eq_add_one hlength'
    obtain ⟨hfield, hrest⟩ := List.cons.inj hfields
    rw [recordField_inj hfield, ih hrest (by simpa using hlength) (by simpa using hlength')]

end RecordShape

/-! ## Records about domains -/

/-- The creator that a record names: the bytes of its command, and its process. -/
def DomainState.creator (domain : DomainState) : Option (List UInt8 × ProcessId) :=
  match domain.creatorComm, domain.creatorTgid with
  | some comm, some tgid => some (comm.bytes, tgid)
  | _, _ => none

/-- The value of `parent`. -/
def parentText : Option DomainParent → String
  | none => "?"
  | some .root => "0"
  | some (.domain id) => id.display

/-- The value of `ruleset`. -/
def rulesetText : Option RulesetVersion → String
  | none => "?"
  | some version => version.display

/-- The value of `creator`. -/
def creatorText : Option CapturedCommand → Option ProcessId → String
  | some comm, some tgid => escape comm ++ "[" ++ decimal tgid.value.toNat ++ "]"
  | _, _ => "?"

/-- The value of `no_new_privs`. -/
def noNewPrivsText : Option Bool → String
  | none => "?"
  | some value => flag value

/-- The values of a `DOMAIN` record. -/
def domainValues (domain : DomainState) : List String :=
  [domain.id.display, parentText domain.parent, rulesetText domain.ruleset,
    creatorText domain.creatorComm domain.creatorTgid, noNewPrivsText domain.noNewPrivs]

/-- A `DOMAIN` record is a line of its shape. -/
private theorem formatDomain_eq_line (domain : DomainState) :
    formatDomain domain = RecordShape.domain.line (domainValues domain) := by
  have hparts : formatDomain domain = "DOMAIN domain=" ++ domain.id.display ++ " parent=" ++
      parentText domain.parent ++ " ruleset=" ++ rulesetText domain.ruleset ++ " creator=" ++
      creatorText domain.creatorComm domain.creatorTgid ++ " no_new_privs=" ++
      noNewPrivsText domain.noNewPrivs := rfl
  rw [hparts, ← String.toList_inj]
  simp [RecordShape.line, RecordShape.tokens, RecordShape.opening, RecordShape.keys,
    domainValues, recordField]

/-- Whatever is known of a domain, its values are visible. -/
private theorem values_domain (domain : DomainState) :
    RecordShape.domain.Values (domainValues domain) := by
  refine ⟨rfl, ?_⟩
  have hparent : Consists visible (parentText domain.parent) := by
    rcases domain.parent with _ | (_ | id)
    · exact (by decide : Consists visible "?")
    · exact (by decide : Consists visible "0")
    · exact visible_display id
  have hruleset : Consists visible (rulesetText domain.ruleset) := by
    rcases domain.ruleset with _ | version
    · exact (by decide : Consists visible "?")
    · exact visible_rulesetVersion version
  have hcreator : Consists visible (creatorText domain.creatorComm domain.creatorTgid) := by
    unfold creatorText
    split
    · exact (((visible_escape _).append (by decide)).append (visible_decimal _)).append (by decide)
    · decide
  have hflag : Consists visible (noNewPrivsText domain.noNewPrivs) := by
    rcases domain.noNewPrivs with _ | value
    · exact (by decide : Consists visible "?")
    · exact visible_flag value
  simp [domainValues, visible_display, hparent, hruleset, hcreator, hflag]

/-! ### Reading back -/

/-- A number can be read back from its digits. -/
private theorem decimal_inj {a b : Nat} (h : decimal a = decimal b) : a = b :=
  Numeral.text_inj (by omega) (by omega) h

/-- A text with a character that no numeral has is no numeral. -/
private theorem numeral_ne {base n : Nat} (hbase : 1 < base) (hle : base ≤ 16) {s : String}
    {c : Char} (hmem : c ∈ s.toList) (hc : ∀ digit < 16, c ≠ Nat.digitChar digit) :
    Numeral.text base n ≠ s := by
  intro heq
  exact Numeral.notMem_text hbase hle hc (heq ▸ hmem)

/-- The ID of a domain is not the number of the root. -/
private theorem display_ne_zero {K : LandlockIdKind} (id : LandlockId K) : id.display ≠ "0" := by
  intro h
  have hvalue : id.value.toNat = 0 := Numeral.text_inj (by omega) (by omega) h
  have hmin := UInt64.le_iff_toNat_le.mp id.minLe
  rw [hvalue] at hmin
  exact absurd hmin (by decide)

/-- The parent can be read back: unknown, the root, or a domain. -/
private theorem parentText_inj {a b : Option DomainParent} (h : parentText a = parentText b) :
    a = b := by
  have hunknown : ∀ id : DomainId, id.display ≠ "?" := fun id =>
    numeral_ne (by omega) (by omega) (c := '?') (by decide) (by decide)
  -- A question mark and a zero are not IDs
  rcases a with _ | (_ | id) <;> rcases b with _ | (_ | id')
  · rfl
  · exact absurd h (by decide)
  · exact absurd h.symm (hunknown id')
  · exact absurd h (by decide)
  · rfl
  · exact absurd h.symm (display_ne_zero id')
  · exact absurd h (hunknown id)
  · exact absurd h (display_ne_zero id)
  · rw [LandlockId.display_inj h]

/-- The ruleset and its version can be read back. -/
theorem RulesetVersion.display_inj {a b : RulesetVersion} (h : a.display = b.display) : a = b := by
  have hlist := congrArg String.toList h
  simp only [RulesetVersion.display, String.toList_append, List.append_assoc] at hlist
  -- The ID ends at the dot
  have hdot : ∀ id : RulesetId, '.' ∉ id.display.toList := fun id =>
    Numeral.notMem_text (by omega) (by omega) (by decide)
  obtain ⟨hid, hversion⟩ := append_separator_inj (hdot _) (hdot _) hlist
  have hvalue := decimal_inj (String.toList_inj.mp hversion)
  cases a
  cases b
  cases LandlockId.display_inj (String.toList_inj.mp hid)
  cases UInt64.toNat_inj.mp hvalue
  rfl

/-- So can a ruleset that may be unknown. -/
private theorem rulesetText_inj {a b : Option RulesetVersion} (h : rulesetText a = rulesetText b) :
    a = b := by
  -- A known one has a dot
  have hunknown : ∀ version : RulesetVersion, version.display ≠ "?" := by
    intro version heq
    have hdot : '.' ∈ version.display.toList := by simp [RulesetVersion.display]
    rw [heq] at hdot
    exact absurd hdot (by decide)
  cases a with
  | none =>
    cases b with
    | none => rfl
    | some version => exact absurd h.symm (hunknown version)
  | some version =>
    cases b with
    | none => exact absurd h (hunknown version)
    | some version' => rw [RulesetVersion.display_inj h]

/-- The command of a creator ends at the bracket. -/
private theorem bracket_notMem_escape {K : CapturedBytesOrigin} (value : CapturedBytes K) :
    '[' ∉ (escape value).toList := by
  intro hmem
  have hconsists : Consists (fun c => c != '[') (escape value) :=
    consists_escape (by decide +kernel) (by decide) (by decide) (by decide) (by decide) value
  exact absurd (hconsists '[' hmem) (by decide)

/-- A creator that is known: its command, and its process in brackets. -/
private theorem toList_creatorText (comm : CapturedCommand) (tgid : ProcessId) :
    (creatorText (some comm) (some tgid)).toList =
      (escape comm).toList ++ '[' :: ((decimal tgid.value.toNat).toList ++ [']']) := by
  simp [creatorText]

/-- It is not written like an unknown one. -/
private theorem creatorText_ne (comm : CapturedCommand) (tgid : ProcessId) :
    creatorText (some comm) (some tgid) ≠ "?" := by
  intro heq
  have hbracket : '[' ∈ (creatorText (some comm) (some tgid)).toList := by
    rw [toList_creatorText]
    simp
  rw [heq] at hbracket
  exact absurd hbracket (by decide)

/-- Half a creator is written like none. -/
private theorem creator_cases (domain : DomainState) :
    (domain.creator = none ∧ creatorText domain.creatorComm domain.creatorTgid = "?") ∨
      ∃ comm tgid, domain.creator = some (comm.bytes, tgid) ∧
        creatorText domain.creatorComm domain.creatorTgid =
          creatorText (some comm) (some tgid) := by
  unfold DomainState.creator
  cases domain.creatorComm with
  | none => exact .inl ⟨rfl, rfl⟩
  | some comm =>
    cases domain.creatorTgid with
    | none => exact .inl ⟨rfl, rfl⟩
    | some tgid => exact .inr ⟨comm, tgid, rfl, rfl⟩

/-- A process can be read back from its digits. -/
private theorem processId_inj {a b : ProcessId}
    (h : (decimal a.value.toNat).toList = (decimal b.value.toNat).toList) : a = b := by
  have hvalue := decimal_inj (String.toList_inj.mp h)
  cases a
  cases b
  cases UInt32.toNat_inj.mp hvalue
  rfl

/-- The creator can be read back. -/
private theorem creatorText_inj {a b : DomainState}
    (h : creatorText a.creatorComm a.creatorTgid = creatorText b.creatorComm b.creatorTgid) :
    a.creator = b.creator := by
  rcases creator_cases a with ⟨ha, hunknown⟩ | ⟨comm, tgid, ha, htext⟩
  · rcases creator_cases b with ⟨hb, -⟩ | ⟨comm', tgid', hb, htext'⟩
    · rw [ha, hb]
    · rw [hunknown, htext'] at h
      exact absurd h.symm (creatorText_ne comm' tgid')
  · rcases creator_cases b with ⟨hb, hunknown'⟩ | ⟨comm', tgid', hb, htext'⟩
    · rw [htext, hunknown'] at h
      exact absurd h (creatorText_ne comm tgid)
    · -- the command is read up to the bracket, the process after it
      rw [htext, htext', ← String.toList_inj, toList_creatorText, toList_creatorText] at h
      obtain ⟨hcomm, hrest⟩ := append_separator_inj (bracket_notMem_escape comm)
        (bracket_notMem_escape comm') h
      have htgid := processId_inj (List.append_cancel_right hrest)
      rw [ha, hb, (escape_inj (String.toList_inj.mp hcomm)).1, htgid]

/-- The flag can be read back. -/
private theorem noNewPrivsText_inj {a b : Option Bool} (h : noNewPrivsText a = noNewPrivsText b) :
    a = b := by
  rcases a with _ | (_ | _) <;> rcases b with _ | (_ | _) <;>
    first | rfl | exact absurd h (by decide)

/-- A `DOMAIN` record says what is known of a domain. -/
theorem formatDomain_inj {a b : DomainState} (h : formatDomain a = formatDomain b) :
    a.id = b.id ∧ a.parent = b.parent ∧ a.ruleset = b.ruleset ∧ a.creator = b.creator ∧
      a.noNewPrivs = b.noNewPrivs := by
  rw [formatDomain_eq_line, formatDomain_eq_line] at h
  have hvalues := RecordShape.line_inj (values_domain a) (values_domain b) h
  simp only [domainValues, List.cons.injEq, and_true] at hvalues
  obtain ⟨hid, hparent, hruleset, hcreator, hflag⟩ := hvalues
  exact ⟨LandlockId.display_inj hid, parentText_inj hparent, rulesetText_inj hruleset,
    creatorText_inj hcreator, noNewPrivsText_inj hflag⟩

/-! ## The other records -/

/-- A `DROP_RULESET` record is a line of its shape. -/
private theorem formatDropRuleset_eq_line (version : RulesetVersion) :
    formatDropRuleset version = RecordShape.dropRuleset.line [version.display] := by
  apply String.toList_inj.mp
  unfold formatDropRuleset
  simp [RecordShape.line, RecordShape.tokens, RecordShape.opening, RecordShape.keys, recordField]

/-- It has the documented tokens. -/
private theorem fits_formatDropRuleset (version : RulesetVersion) :
    RecordShape.dropRuleset.Fits (formatDropRuleset version) := by
  rw [formatDropRuleset_eq_line]
  exact RecordShape.fits_line ⟨rfl, by simpa using visible_rulesetVersion version⟩ (by simp)

/-- A `DOMAIN` record has the documented tokens. -/
private theorem fits_formatDomain (domain : DomainState) :
    RecordShape.domain.Fits (formatDomain domain) := by
  rw [formatDomain_eq_line]
  exact RecordShape.fits_line (values_domain domain) (by simp)

/-- The values of a `STATS` record. -/
def statsValues (allocated total : Nat) (stats : Stats) : List String :=
  [decimal allocated ++ "/" ++ decimal total, decimal stats.totalDenials.toNat,
    decimal (stats.denials .fs).toNat, decimal (stats.denials .net).toNat,
    decimal (stats.denials .ptrace).toNat, decimal (stats.denials .signal).toNat,
    decimal (stats.denials .abstractUnix).toNat ++ ")"]

/-- A `STATS` record is a line of its shape. -/
private theorem formatStats_eq_line (allocated total : Nat) (stats : Stats) :
    formatStats allocated total stats =
      RecordShape.stats.line (statsValues allocated total stats) := by
  apply String.toList_inj.mp
  unfold formatStats
  simp [RecordShape.line, RecordShape.tokens, RecordShape.opening, RecordShape.keys,
    recordField, statsValues, DenialKind.all, DenialKind.statsLabel]

/-- It has the documented tokens and ends with the parenthesis. -/
private theorem fits_formatStats (allocated total : Nat) (stats : Stats) :
    RecordShape.stats.Fits (formatStats allocated total stats) := by
  have hvalues : RecordShape.stats.Values (statsValues allocated total stats) := by
    refine ⟨rfl, ?_⟩
    have hcount : Consists visible (decimal allocated ++ "/" ++ decimal total) :=
      ((visible_decimal _).append (by decide)).append (visible_decimal _)
    have hlast : Consists visible (decimal (stats.denials .abstractUnix).toNat ++ ")") :=
      (visible_decimal _).append (by decide)
    simp [statsValues, hcount, hlast, visible_decimal]
  rw [formatStats_eq_line]
  -- The closing parenthesis is the last character
  refine RecordShape.fits_line hvalues fun _ => ?_
  rw [← formatStats_eq_line]
  unfold formatStats
  rw [String.toList_append]
  exact List.getLast?_concat

/-! ## Records about denials -/

/-- The values of a `DENIAL` record. -/
def denialValues (denial : AggregatedDenial) (fields : DenialFields) : List String :=
  [fields.domain.display, fields.blockers, fields.target,
    decimal denial.occurrenceCount.toNat,
    elapsed denial.firstTimestamp.nanoseconds denial.latestTimestamp.nanoseconds,
    flag denial.sameExec, flag denial.logged] ++
  fields.relation.toList.map fun relation => domainMembership relation.2

/-- The key of the other domain is the one of the kind. -/
private theorem relation_key {event : Event} {kind : DenialKind} {fields : DenialFields}
    (hkind : DenialKind.fromEvent event = some kind) (hfields : denialFields event = some fields) :
    fields.relation.map Prod.fst = kind.relationKey := by
  cases event
  all_goals first
    | cases hkind; done
    | cases hkind
      cases hfields
      rfl

/-- The values of a denial are visible, and there is one for each key. -/
private theorem values_denial {event : Event} {kind : DenialKind} {fields : DenialFields}
    (hkind : DenialKind.fromEvent event = some kind) (hfields : denialFields event = some fields)
    (denial : AggregatedDenial) :
    (RecordShape.denial kind).Values (denialValues denial fields) := by
  obtain ⟨hblockers, htarget⟩ := visible_denialFields hfields
  refine ⟨?_, fun value hvalue => ?_⟩
  -- The last key is there for the three kinds that are between two domains
  · have hlength : fields.relation.toList.length = kind.relationKey.toList.length := by
      rw [← relation_key hkind hfields, Option.length_toList, Option.length_toList,
        Option.isSome_map]
    simp [denialValues, RecordShape.keys, hlength]
  · rcases List.mem_append.mp hvalue with hvalue | hvalue
    · simp only [List.mem_cons, List.not_mem_nil, or_false] at hvalue
      rcases hvalue with rfl | rfl | rfl | rfl | rfl | rfl | rfl
      · exact visible_display _
      · exact hblockers
      · exact htarget
      · exact visible_decimal _
      · exact visible_elapsed _ _
      · exact visible_flag _
      · exact visible_flag _
    · obtain ⟨relation, -, rfl⟩ := List.mem_map.mp hvalue
      exact visible_domainMembership _

/-- A `DENIAL` record is a line of its kind. -/
private theorem formatDenial_eq_line {kind : DenialKind} {denial : AggregatedDenial}
    {fields : DenialFields} {record : String}
    (hkind : DenialKind.fromEvent denial.latestEvent = some kind)
    (hfields : denialFields denial.latestEvent = some fields)
    (h : formatDenial kind denial = some record) :
    record = (RecordShape.denial kind).line (denialValues denial fields) := by
  have hkey := relation_key hkind hfields
  unfold formatDenial at h
  rw [hfields, Option.map_some] at h
  rw [← Option.some.inj h]
  apply String.toList_inj.mp
  -- The other domain, if there is one, is the last field
  cases hrelation : fields.relation with
  | none =>
    rw [hrelation, Option.map_none] at hkey
    simp [RecordShape.line, RecordShape.tokens, RecordShape.opening, RecordShape.keys,
      recordField, denialValues, hrelation, ← hkey]
  | some relation =>
    obtain ⟨label, membership⟩ := relation
    rw [hrelation, Option.map_some] at hkey
    simp [RecordShape.line, RecordShape.tokens, RecordShape.opening, RecordShape.keys,
      recordField, denialValues, hrelation, ← hkey]

/-- The token that names the target of a denial. -/
def targetToken (event : Event) : Option String :=
  (denialFields event).map fun fields => recordField "target" fields.target

/-- A `DENIAL` record has the documented tokens, its target as the fifth. -/
private theorem fits_formatDenial {kind : DenialKind} {denial : AggregatedDenial} {record : String}
    (hkind : DenialKind.fromEvent denial.latestEvent = some kind)
    (h : formatDenial kind denial = some record) :
    (RecordShape.denial kind).Fits record ∧
      (Line.tokens record)[4]? = targetToken denial.latestEvent := by
  obtain ⟨fields, hfields, -⟩ := Option.map_eq_some_iff.mp h
  have hvalues := values_denial hkind hfields denial
  rw [formatDenial_eq_line hkind hfields h]
  refine ⟨RecordShape.fits_line hvalues (by simp), ?_⟩
  rw [RecordShape.tokens_line hvalues, targetToken, hfields]
  rfl

/-! ### Targets -/

/-- The target of a denial about a task: the process ends at the second colon. -/
private theorem taskTarget_inj {pid pid' : ProcessId} {comm comm' : CapturedCommand}
    (h : "pid:" ++ decimal pid.value.toNat ++ ":" ++ escape comm =
      "pid:" ++ decimal pid'.value.toNat ++ ":" ++ escape comm') :
    pid = pid' ∧ comm.bytes = comm'.bytes := by
  have hcolon : ∀ n, ':' ∉ (decimal n).toList := fun n =>
    Numeral.notMem_text (by omega) (by omega) (by decide)
  have hlist := congrArg String.toList h
  simp only [String.toList_append, List.append_assoc, List.append_cancel_left_eq] at hlist
  obtain ⟨hpid, hcomm⟩ := append_separator_inj (hcolon _) (hcolon _) hlist
  exact ⟨processId_inj hpid, (escape_inj (String.toList_inj.mp hcomm)).1⟩

/-- The target of a filesystem denial determines the path. -/
theorem fsTarget_inj {a b : DenyAccessFsEvent}
    (h : targetToken (.denyAccessFs a) = targetToken (.denyAccessFs b)) :
    a.pathname.bytes = b.pathname.bytes ∧ a.pathname.bytesOmitted = b.pathname.bytesOmitted :=
  escape_inj (recordField_inj (Option.some.inj h))

/-- That of a ptrace denial determines the process and its command. -/
theorem ptraceTarget_inj {a b : DenyPtraceEvent}
    (h : targetToken (.denyPtrace a) = targetToken (.denyPtrace b)) :
    a.traceePid = b.traceePid ∧ a.traceeComm.bytes = b.traceeComm.bytes :=
  taskTarget_inj (recordField_inj (Option.some.inj h))

/-- So does that of a signal denial. -/
theorem signalTarget_inj {a b : DenyScopeSignalEvent}
    (h : targetToken (.denyScopeSignal a) = targetToken (.denyScopeSignal b)) :
    a.targetPid = b.targetPid ∧ a.targetComm.bytes = b.targetComm.bytes :=
  taskTarget_inj (recordField_inj (Option.some.inj h))

/-- That of a socket denial determines the name. -/
theorem abstractUnixTarget_inj {a b : DenyScopeAbstractUnixSocketEvent}
    (h : targetToken (.denyScopeAbstractUnixSocket a) =
      targetToken (.denyScopeAbstractUnixSocket b)) :
    a.abstractName.bytes = b.abstractName.bytes := by
  have htarget := congrArg String.toList (recordField_inj (Option.some.inj h))
  rw [String.toList_append, String.toList_append] at htarget
  exact (escape_inj (String.toList_inj.mp (List.append_cancel_left htarget))).1

/-! ## Sequences of events -/

namespace Batch

variable (order : IterOrder DenialKey AggregatedDenial) (batch : Batch) (event : Event)

/-- The records about domains fit their shape. -/
private theorem fits_domainRecords {record : String} (h : record ∈ batch.domainRecords event) :
    RecordShape.domain.Fits record := by
  obtain ⟨id, -, hrecord⟩ := List.mem_filterMap.mp h
  unfold changedRecord at hrecord
  split at hrecord
  · obtain ⟨view, hview, rfl⟩ := Option.map_eq_some_iff.mp hrecord
    obtain ⟨domain, -, rfl⟩ := Option.map_eq_some_iff.mp hview
    exact fits_formatDomain domain
  · cases hrecord

/-- The record of a denial fits its shape and names the target of the event. -/
private theorem fits_denialRecord {record : String}
    (h : batch.denialRecord order event = some record) :
    (∃ shape : RecordShape, shape.Fits record) ∧ (Line.tokens record)[4]? = targetToken event := by
  obtain ⟨kind, hkind, h⟩ := Option.bind_eq_some_iff.mp h
  obtain ⟨entry, hentry, h⟩ := Option.bind_eq_some_iff.mp h
  -- The entry that is written shows the event as its latest one
  obtain ⟨facts, hfacts⟩ : ∃ facts, denialFacts event = some facts := by
    cases event <;> first | exact ⟨_, rfl⟩ | cases hkind
  obtain ⟨entry', hentry', hlatest⟩ :=
    DenialAggregator.observeEntry_latestEvent order batch.denials hfacts
  rw [hentry] at hentry'
  cases hentry'
  rw [← hlatest] at hkind ⊢
  obtain ⟨hfits, htarget⟩ := fits_formatDenial hkind h
  exact ⟨⟨_, hfits⟩, htarget⟩

/-- Every record of one event has one of the documented shapes. -/
theorem process_fits {record : String} (h : record ∈ (batch.process order event).2) :
    ∃ shape : RecordShape, shape.Fits record := by
  rw [process_records] at h
  -- The records of one event: domains, a dropped ruleset, a denial, the statistics
  rcases List.mem_append.mp h with h | h
  · rcases List.mem_append.mp h with h | h
    · rcases List.mem_append.mp h with h | h
      · exact ⟨_, fits_domainRecords batch event h⟩
      · obtain ⟨-, version, -, -, rfl⟩ := dropRecord_eq_some (Option.mem_toList.mp h)
        exact ⟨_, fits_formatDropRuleset version⟩
    · exact (fits_denialRecord order batch event (Option.mem_toList.mp h)).1
  · split at h
    · rw [List.mem_singleton.mp h]
      exact ⟨_, fits_formatStats _ _ _⟩
    · cases h

/-- A `DENIAL` record names the target of the event it was written for. -/
private theorem process_target {record : String} (h : record ∈ (batch.process order event).2)
    (hdenial : isDenialRecord record = true) :
    (Line.tokens record)[4]? = targetToken event := by
  have hmem : record ∈ (batch.process order event).2.filter isDenialRecord :=
    List.mem_filter.mpr ⟨h, hdenial⟩
  rw [filter_isDenialRecord_process_eq] at hmem
  exact (fits_denialRecord order batch event (Option.mem_toList.mp hmem)).2

/-- A record that was written was written for some event. -/
theorem mem_processAll {steps : List (IterOrder DenialKey AggregatedDenial × Event)}
    {record : String} (h : record ∈ (processAll steps).2) :
    ∃ earlier order event, record ∈ ((processAll earlier).1.process order event).2 := by
  induction steps using List.reverseRecOn with
  | nil => cases h
  | append_singleton steps step ih =>
    rw [processAll_concat] at h
    rcases List.mem_append.mp h with h | h
    · exact ih h
    · exact ⟨steps, step.1, step.2, h⟩

/-- The line protocol: for every sequence of events each record is one printable line of the
    documented tokens, and what it says about a domain or the target of a denial can be read
    back. -/
theorem line_protocol :
    (∀ steps, ∀ record ∈ (processAll steps).2, ∃ shape : RecordShape, shape.Fits record) ∧
    (∀ steps order event, ∀ record ∈ ((processAll steps).1.process order event).2,
      isDenialRecord record = true → (Line.tokens record)[4]? = targetToken event) ∧
    (∀ a b : DomainState, formatDomain a = formatDomain b →
      a.id = b.id ∧ a.parent = b.parent ∧ a.ruleset = b.ruleset ∧ a.creator = b.creator ∧
        a.noNewPrivs = b.noNewPrivs) ∧
    (∀ a b : DenyAccessFsEvent,
      targetToken (.denyAccessFs a) = targetToken (.denyAccessFs b) →
        a.pathname.bytes = b.pathname.bytes ∧
          a.pathname.bytesOmitted = b.pathname.bytesOmitted) ∧
    (∀ a b : DenyPtraceEvent, targetToken (.denyPtrace a) = targetToken (.denyPtrace b) →
      a.traceePid = b.traceePid ∧ a.traceeComm.bytes = b.traceeComm.bytes) ∧
    (∀ a b : DenyScopeSignalEvent,
      targetToken (.denyScopeSignal a) = targetToken (.denyScopeSignal b) →
        a.targetPid = b.targetPid ∧ a.targetComm.bytes = b.targetComm.bytes) ∧
    ∀ a b : DenyScopeAbstractUnixSocketEvent,
      targetToken (.denyScopeAbstractUnixSocket a) =
          targetToken (.denyScopeAbstractUnixSocket b) →
        a.abstractName.bytes = b.abstractName.bytes := by
  refine ⟨fun steps record hrecord => ?_, fun steps order event record => ?_,
    fun _ _ => formatDomain_inj, fun _ _ => fsTarget_inj, fun _ _ => ptraceTarget_inj,
    fun _ _ => signalTarget_inj, fun _ _ => abstractUnixTarget_inj⟩
  · obtain ⟨earlier, order, event, h⟩ := mem_processAll hrecord
    exact process_fits order _ event h
  · exact process_target order _ event

end Batch

end Landlock
