import LandlockObservability.Spec.StateEffects

/-!
# Exchanging and repeating record updates

For each pair of record updates that can meet at one map entry: applying them in
either order gives the same record, on every record.  Updates of different groups
of fields never see each other.  Within a group, counters are maxima, masks are
unions, and the timestamped facts are latest-wins registers, for which updates of
equal timestamp must agree.  The provenance inferred from a denial yields to
creation facts in both orders.

Every update is also idempotent.
-/

namespace Landlock

/-! ## Rules and enforcement entries

The values of the inner maps: one filesystem rule, one network rule, and the
enforcement event of one thread. -/

namespace RulesetState

/-- The path facts of a filesystem rule as a latest-wins register. -/
private def rulePath (event : AddRulePathBeneathEvent) :
    FilesystemRuleState → FilesystemRuleState :=
  Register.latest (fun r => some (timestampValue r.pathnameTimestamp))
    (fun e : AddRulePathBeneathEvent => timestampValue e.timestamp)
    (fun e r => { r with pathname := e.pathname, pathnameTimestamp := e.timestamp })
    event

private def widen (event : AddRulePathBeneathEvent) (rule : FilesystemRuleState) :
    FilesystemRuleState :=
  { rule with accessRights := ⟨rule.accessRights.bits ||| event.accessRights.bits⟩ }

/-- An update of a rule is a union of rights and a write of the path register. -/
private theorem mergeFilesystemRule_some (event : AddRulePathBeneathEvent)
    (rule : FilesystemRuleState) :
    mergeFilesystemRule event (some rule) = rulePath event (widen event rule) := by
  simp [mergeFilesystemRule, rulePath, widen, Register.latest, Register.replaces]

/-- Reading the timestamp after a write gives that of the write. -/
private theorem lawful_rulePath :
    Register.Lawful (fun r : FilesystemRuleState => some (timestampValue r.pathnameTimestamp))
      (fun e : AddRulePathBeneathEvent => timestampValue e.timestamp)
      (fun e r => { r with pathname := e.pathname, pathnameTimestamp := e.timestamp }) :=
  ⟨fun _ _ => rfl, fun _ _ _ => rfl⟩

/-- The rights and the path are separate fields. -/
private theorem rulePath_widen (a b : AddRulePathBeneathEvent) :
    Function.Commute (rulePath a) (widen b) :=
  Register.latest_comm_of_frame a (fun _ => rfl) fun _ => rfl

/-- Two writes of the path can be exchanged when those of one time agree. -/
private theorem rulePath_comm {a b : AddRulePathBeneathEvent}
    (hab : a.timestamp = b.timestamp → a.pathname = b.pathname) :
    Function.Commute (rulePath a) (rulePath b) := by
  refine Register.latest_comm lawful_rulePath fun htime r => ?_
  have hts : a.timestamp = b.timestamp := timestampValue_injective htime
  simp only [hts, hab hts]

/-- Unions of rights can be exchanged. -/
private theorem widen_comm (a b : AddRulePathBeneathEvent) :
    Function.Commute (widen a) (widen b) := by
  intro r
  simp only [widen, FilesystemRuleState.mk.injEq, AccessMask.mk.injEq, true_and, and_true]
  rw [UInt64.or_assoc, UInt64.or_comm b.accessRights.bits, ← UInt64.or_assoc]

/-- A first observation of a rule is the update of a rule with no rights and no
    earlier path. -/
private theorem mergeFilesystemRule_none (event : AddRulePathBeneathEvent) :
    mergeFilesystemRule event none =
      mergeFilesystemRule event
        (some ⟨event.device, event.inode, ⟨0⟩, event.pathname, ⟨0⟩⟩) := by
  simp [mergeFilesystemRule, timestampValue]

/-- Two updates of one filesystem rule can be exchanged, also when they are its first two. -/
private theorem mergeFilesystemRule_comm {a b : AddRulePathBeneathEvent}
    (hkey : (a.device, a.inode) = (b.device, b.inode))
    (hab : a.timestamp = b.timestamp → a.pathname = b.pathname)
    (rule : Option FilesystemRuleState) :
    mergeFilesystemRule b (some (mergeFilesystemRule a rule)) =
      mergeFilesystemRule a (some (mergeFilesystemRule b rule)) := by
  -- On a record that exists, each group of fields is exchanged by itself
  have hsome : ∀ r, mergeFilesystemRule b (some (mergeFilesystemRule a (some r))) =
      mergeFilesystemRule a (some (mergeFilesystemRule b (some r))) := by
    intro r
    simp only [mergeFilesystemRule_some]
    rw [← rulePath_widen a b, ← rulePath_widen b a, widen_comm a b]
    exact ((rulePath_comm hab) _).symm
  cases rule with
  | some r => exact hsome r
  | none =>
    -- The path of the empty rule is replaced at once, so both sides may use `a`'s
    have hstart : ∀ p, mergeFilesystemRule b none =
        mergeFilesystemRule b (some ⟨a.device, a.inode, ⟨0⟩, p, ⟨0⟩⟩) := by
      intro p
      obtain ⟨hdev, hino⟩ := Prod.mk.inj hkey
      simp [mergeFilesystemRule, timestampValue, hdev, hino]
    rw [mergeFilesystemRule_none a, hstart a.pathname]
    exact hsome _

/-- A repeated update of a filesystem rule changes nothing. -/
private theorem mergeFilesystemRule_idem (event : AddRulePathBeneathEvent)
    (rule : Option FilesystemRuleState) :
    mergeFilesystemRule event (some (mergeFilesystemRule event rule)) =
      mergeFilesystemRule event rule := by
  have hwiden : ∀ r, widen event (widen event r) = widen event r := by
    intro r
    simp only [widen, UInt64.or_assoc, UInt64.or_self]
  have hsome : ∀ r, mergeFilesystemRule event (some (mergeFilesystemRule event (some r))) =
      mergeFilesystemRule event (some r) := by
    intro r
    simp only [mergeFilesystemRule_some]
    rw [← rulePath_widen event event, hwiden]
    exact Register.latest_idem lawful_rulePath event _
  cases rule with
  | some r => exact hsome r
  | none =>
    rw [mergeFilesystemRule_none]
    exact hsome _

/-- Two updates of one network rule can be exchanged. -/
private theorem mergeNetworkRule_comm {a b : AddRuleNetPortEvent} (hport : a.port = b.port)
    (rule : Option NetworkRuleState) :
    mergeNetworkRule b (some (mergeNetworkRule a rule)) =
      mergeNetworkRule a (some (mergeNetworkRule b rule)) := by
  cases rule with
  | none =>
    simp only [mergeNetworkRule, hport]
    rw [UInt64.or_comm]
  | some r =>
    simp only [mergeNetworkRule]
    rw [UInt64.or_assoc, UInt64.or_comm a.accessRights.bits, ← UInt64.or_assoc]

/-- A repeated update of a network rule changes nothing. -/
private theorem mergeNetworkRule_idem (event : AddRuleNetPortEvent)
    (rule : Option NetworkRuleState) :
    mergeNetworkRule event (some (mergeNetworkRule event rule)) =
      mergeNetworkRule event rule := by
  cases rule with
  | none => simp only [mergeNetworkRule, UInt64.or_self]
  | some r => simp only [mergeNetworkRule, UInt64.or_assoc, UInt64.or_self]

end RulesetState

namespace DomainState

/-- The enforcement event of a thread is a latest-wins register. -/
theorem mergeEnforcement_eq_latest (event : EnforceDomainEvent)
    (current : Option EnforceDomainEvent) :
    some (mergeEnforcement event current) =
      Register.latest (Option.map fun e : EnforceDomainEvent => timestampValue e.timestamp)
        (fun e : EnforceDomainEvent => timestampValue e.timestamp) (fun e _ => some e)
        event current := by
  cases current with
  | none => rfl
  | some c =>
    simp only [mergeEnforcement, Register.latest, Option.map_some, Register.replaces_some]
    split <;> rfl

/-- The register of an enforcement holds the event that was written last. -/
private theorem lawful_enforcement :
    Register.Lawful (Option.map fun e : EnforceDomainEvent => timestampValue e.timestamp)
      (fun e : EnforceDomainEvent => timestampValue e.timestamp)
      (fun e (_ : Option EnforceDomainEvent) => some e) :=
  ⟨fun _ _ => rfl, fun _ _ _ => rfl⟩

/-- Two enforcements of one thread can be exchanged when those of one time are the same. -/
private theorem mergeEnforcement_comm {a b : EnforceDomainEvent}
    (hab : a.timestamp = b.timestamp → a = b) (current : Option EnforceDomainEvent) :
    mergeEnforcement b (some (mergeEnforcement a current)) =
      mergeEnforcement a (some (mergeEnforcement b current)) := by
  apply Option.some.inj
  simp only [mergeEnforcement_eq_latest]
  refine (Register.latest_comm lawful_enforcement fun htime => ?_) current
  intro _
  exact congrArg some (hab (timestampValue_injective htime).symm).symm

/-- A repeated enforcement changes nothing. -/
private theorem mergeEnforcement_idem (event : EnforceDomainEvent)
    (current : Option EnforceDomainEvent) :
    mergeEnforcement event (some (mergeEnforcement event current)) =
      mergeEnforcement event current := by
  apply Option.some.inj
  simp only [mergeEnforcement_eq_latest]
  exact Register.latest_idem lawful_enforcement event current

end DomainState

/-! ## Ruleset records -/

namespace RulesetState

/-- The version is a maximum, so that updates of it can be exchanged -/
theorem updateVersion_comm (v w : UInt64) :
    Function.Commute (updateVersion v) (updateVersion w) := by
  intro s
  simp only [updateVersion]
  rw [max_assoc, max_comm w v, ← max_assoc]

/-- and repeated. -/
theorem updateVersion_idem (v : UInt64) (s : RulesetState) :
    updateVersion v (updateVersion v s) = updateVersion v s := by
  simp only [updateVersion]
  rw [max_assoc, max_self]

/-- The creation facts of a ruleset are a register. -/
private theorem lawful_creation :
    Register.Lawful (fun s : RulesetState => s.creationTimestamp.map timestampValue)
      (fun e : CreateRulesetEvent => timestampValue e.timestamp)
      (fun e s =>
        { s with
          creationTimestamp := some e.timestamp
          handledFs := some e.handledFs
          handledNet := some e.handledNet
          scopedAccess := some e.scopedAccess }) :=
  ⟨fun _ _ => rfl, fun _ _ _ => rfl⟩

/-- Creation facts leave the other groups of fields alone. -/
private theorem creation_frame (e : CreateRulesetEvent) {g : RulesetState → RulesetState}
    (hg : ∀ s : RulesetState, (g s).creationTimestamp = s.creationTimestamp)
    (hw : ∀ (s : RulesetState) t fs net sc,
      g { s with creationTimestamp := t, handledFs := fs, handledNet := net, scopedAccess := sc } =
        { g s with
          creationTimestamp := t, handledFs := fs, handledNet := net, scopedAccess := sc }) :
    Function.Commute (creation e) g :=
  Register.latest_comm_of_frame e (fun s => by rw [hg]) fun s => (hw s _ _ _ _).symm

/-- Two creations of one ruleset can be exchanged when those of one time agree. -/
theorem creation_comm {a b : CreateRulesetEvent}
    (hab : a.timestamp = b.timestamp →
      a.handledFs = b.handledFs ∧ a.handledNet = b.handledNet ∧
        a.scopedAccess = b.scopedAccess) :
    Function.Commute (creation a) (creation b) := by
  refine Register.latest_comm lawful_creation fun htime s => ?_
  have hts : a.timestamp = b.timestamp := timestampValue_injective htime
  obtain ⟨hfs, hnet, hscope⟩ := hab hts
  simp only [hts, hfs, hnet, hscope]

/-- Two filesystem rules can be added in any order. -/
private theorem addFilesystemRule_comm {a b : AddRulePathBeneathEvent}
    (hab : (a.device, a.inode) = (b.device, b.inode) → a.timestamp = b.timestamp →
      a.pathname = b.pathname) :
    Function.Commute (addFilesystemRule a) (addFilesystemRule b) := by
  intro s
  simp only [addFilesystemRule]
  have hmerge : (b.device, b.inode) = (a.device, a.inode) → ∀ o,
      mergeFilesystemRule a (some (mergeFilesystemRule b o)) =
        mergeFilesystemRule b (some (mergeFilesystemRule a o)) :=
    fun hkey => mergeFilesystemRule_comm hkey fun ht => (hab hkey.symm ht.symm).symm
  rw [Finmap.upsert_comm s.filesystemRules hmerge]

/-- So can two network rules. -/
private theorem addNetworkRule_comm (a b : AddRuleNetPortEvent) :
    Function.Commute (addNetworkRule a) (addNetworkRule b) := by
  intro s
  simp only [addNetworkRule]
  have hmerge : b.port = a.port → ∀ o,
      mergeNetworkRule a (some (mergeNetworkRule b o)) =
        mergeNetworkRule b (some (mergeNetworkRule a o)) := mergeNetworkRule_comm
  rw [Finmap.upsert_comm s.networkRules hmerge]

/-- A tombstone keeps maxima, so that two of them can come in any order. -/
theorem tombstone_comm (a b : FreeRulesetEvent) :
    Function.Commute (tombstone a) (tombstone b) := by
  intro s
  simp only [tombstone]
  rw [updateLatestTimestamp_comm, updateMax_comm]

/-- The part of a ruleset update beside the version: one group of fields each. -/
inductive Part where
  | created (event : CreateRulesetEvent)
  | filesystemRule (event : AddRulePathBeneathEvent)
  | networkRule (event : AddRuleNetPortEvent)
  | referenced (event : CreateDomainEvent)
  | freed (event : FreeRulesetEvent)

namespace Part

/-- What the part does to the record. -/
def update : Part → RulesetState → RulesetState
  | created event => creation event
  | filesystemRule event => addFilesystemRule event
  | networkRule event => addNetworkRule event
  | referenced _ => fun state => state
  | freed event => tombstone event

/-- Parts that write one register at one time write the same. -/
def Agree : Part → Part → Prop
  | created a, created b =>
    a.timestamp = b.timestamp →
      a.handledFs = b.handledFs ∧ a.handledNet = b.handledNet ∧ a.scopedAccess = b.scopedAccess
  | filesystemRule a, filesystemRule b =>
    (a.device, a.inode) = (b.device, b.inode) → a.timestamp = b.timestamp →
      a.pathname = b.pathname
  | _, _ => True

/-- Parts that agree can be exchanged. -/
theorem update_comm {p q : Part} (h : p.Agree q) : Function.Commute p.update q.update := by
  -- Parts of different groups of fields write different fields, and the others have their own lemma
  cases p with
  | referenced _ => exact fun _ => rfl
  | created a =>
    cases q with
    | created b => exact creation_comm h
    | filesystemRule b => exact creation_frame a (fun _ => rfl) fun _ _ _ _ _ => rfl
    | networkRule b => exact creation_frame a (fun _ => rfl) fun _ _ _ _ _ => rfl
    | referenced b => exact fun _ => rfl
    | freed b => exact creation_frame a (fun _ => rfl) fun _ _ _ _ _ => rfl
  | filesystemRule a =>
    cases q with
    | created b =>
      exact (creation_frame b (g := addFilesystemRule a) (fun _ => rfl) fun _ _ _ _ _ => rfl).symm
    | filesystemRule b => exact addFilesystemRule_comm h
    | networkRule b => exact fun _ => rfl
    | referenced b => exact fun _ => rfl
    | freed b => exact fun _ => rfl
  | networkRule a =>
    cases q with
    | created b =>
      exact (creation_frame b (g := addNetworkRule a) (fun _ => rfl) fun _ _ _ _ _ => rfl).symm
    | filesystemRule b => exact fun _ => rfl
    | networkRule b => exact addNetworkRule_comm a b
    | referenced b => exact fun _ => rfl
    | freed b => exact fun _ => rfl
  | freed a =>
    cases q with
    | created b =>
      exact (creation_frame b (g := tombstone a) (fun _ => rfl) fun _ _ _ _ _ => rfl).symm
    | filesystemRule b => exact fun _ => rfl
    | networkRule b => exact fun _ => rfl
    | referenced b => exact fun _ => rfl
    | freed b => exact tombstone_comm a b

/-- The version is in none of the groups. -/
theorem update_updateVersion (p : Part) (v : UInt64) :
    Function.Commute p.update (updateVersion v) := by
  cases p with
  | created a => exact creation_frame a (fun _ => rfl) fun _ _ _ _ _ => rfl
  | filesystemRule a => exact fun _ => rfl
  | networkRule a => exact fun _ => rfl
  | referenced a => exact fun _ => rfl
  | freed a => exact fun _ => rfl

/-- A repeated part changes nothing. -/
theorem update_idem (p : Part) (s : RulesetState) : p.update (p.update s) = p.update s := by
  cases p with
  | created a => exact Register.latest_idem lawful_creation a s
  | filesystemRule a =>
    simp only [update, addFilesystemRule]
    rw [Finmap.upsert_idem _ _ (mergeFilesystemRule_idem a)]
  | networkRule a =>
    simp only [update, addNetworkRule]
    rw [Finmap.upsert_idem _ _ (mergeNetworkRule_idem a)]
  | referenced a => rfl
  | freed a =>
    simp only [update, tombstone]
    rw [updateLatestTimestamp_idem, updateMax_idem]

end Part

end RulesetState

/-! ## Domain records -/

namespace DomainState

/-- The denial count is a maximum. -/
theorem raiseCount_comm (m n : UInt64) : Function.Commute (raiseCount m) (raiseCount n) := by
  intro s
  simp only [raiseCount]
  rw [updateMax_comm]

/-- The creation facts of a domain are a register. -/
private theorem lawful_creation :
    Register.Lawful (fun s : DomainState => s.creationTimestamp.map timestampValue)
      (fun e : CreateDomainEvent => timestampValue e.timestamp)
      (fun e s =>
        { s with
          creationTimestamp := some e.timestamp
          parent := some (DomainParent.ofId e.parentId)
          creatorTgid := some e.creatorTgid
          creatorComm := some e.creatorComm
          ruleset := some ⟨e.rulesetId, e.rulesetVersion⟩ }) :=
  ⟨fun _ _ => rfl, fun _ _ _ => rfl⟩

/-- Creation facts can be exchanged with what neither reads nor keeps them. -/
private theorem creation_frame (e : CreateDomainEvent) {g : DomainState → DomainState}
    (hg : ∀ s : DomainState, (g s).creationTimestamp = s.creationTimestamp)
    (hw : ∀ (s : DomainState) t p pid comm rv,
      g { s with
          creationTimestamp := t, parent := some p, creatorTgid := some pid,
          creatorComm := some comm, ruleset := rv } =
        { g s with
          creationTimestamp := t, parent := some p, creatorTgid := some pid,
          creatorComm := some comm, ruleset := rv }) :
    Function.Commute (creation e) g :=
  Register.latest_comm_of_frame e (fun s => by rw [hg]) fun s => (hw s _ _ _ _ _).symm

/-- Two creations of one domain can be exchanged when those of one time agree. -/
theorem creation_comm {a b : CreateDomainEvent}
    (hab : a.timestamp = b.timestamp →
      a.parentId = b.parentId ∧ a.creatorTgid = b.creatorTgid ∧ a.creatorComm = b.creatorComm ∧
        a.rulesetId = b.rulesetId ∧ a.rulesetVersion = b.rulesetVersion) :
    Function.Commute (creation a) (creation b) := by
  refine Register.latest_comm lawful_creation fun htime s => ?_
  have hts : a.timestamp = b.timestamp := timestampValue_injective htime
  obtain ⟨hparent, htgid, hcomm, hid, hversion⟩ := hab hts
  simp only [hts, hparent, htgid, hcomm, hid, hversion]

/-- Inference fills in what is unknown, so that two agreeing hierarchies can come in
    any order. -/
private theorem inference_comm {a b : HierarchySnapshot}
    (hab : a.parentId = b.parentId ∧ a.creatorTgid = b.creatorTgid ∧
      a.creatorComm = b.creatorComm) :
    Function.Commute (inference a) (inference b) := by
  obtain ⟨hparent, htgid, hcomm⟩ := hab
  intro s
  simp only [inference, hparent, htgid, hcomm]

/-- What is known is not inferred again. -/
private theorem inference_idem (h : HierarchySnapshot) (s : DomainState) :
    inference h (inference h s) = inference h s := by
  rcases s with ⟨_, _, _, parent, tgid, comm, _⟩
  cases parent <;> cases tgid <;> cases comm <;> rfl

/-- Two tombstones of a domain can come in any order. -/
theorem tombstone_comm (a b : FreeDomainEvent) :
    Function.Commute (tombstone a) (tombstone b) := by
  intro s
  simp only [tombstone]
  rw [updateLatestTimestamp_comm, updateMax_comm]

/-- So can two enforcements, when those of one thread and time are the same. -/
theorem applyEnforceDomain_comm {a b : EnforceDomainEvent}
    (hab : a.enforcingTid = b.enforcingTid → a.timestamp = b.timestamp → a = b) :
    Function.Commute (applyEnforceDomain a) (applyEnforceDomain b) := by
  intro s
  simp only [applyEnforceDomain_eq]
  have hmerge : b.enforcingTid = a.enforcingTid → ∀ o,
      mergeEnforcement a (some (mergeEnforcement b o)) =
        mergeEnforcement b (some (mergeEnforcement a o)) :=
    fun htid => mergeEnforcement_comm fun ht => (hab htid.symm ht.symm).symm
  rw [Finmap.upsert_comm s.enforcementEvents hmerge, Bool.or_right_comm]

/-- A repeated enforcement changes nothing. -/
theorem applyEnforceDomain_idem (e : EnforceDomainEvent) (s : DomainState) :
    applyEnforceDomain e (applyEnforceDomain e s) = applyEnforceDomain e s := by
  simp only [applyEnforceDomain_eq]
  rw [Finmap.upsert_idem _ _ (mergeEnforcement_idem e), Bool.or_assoc, Bool.or_self]

/-- An enforcement does not touch the denial count. -/
theorem raiseCount_applyEnforceDomain (n : UInt64) (e : EnforceDomainEvent) :
    Function.Commute (raiseCount n) (applyEnforceDomain e) := by
  intro s
  simp only [applyEnforceDomain_eq, raiseCount]

/-- A repeated count changes nothing. -/
theorem raiseCount_idem (n : UInt64) (s : DomainState) :
    raiseCount n (raiseCount n s) = raiseCount n s := by
  simp only [raiseCount]
  rw [updateMax_idem]

/-- The part of a domain update beside the denial count. -/
inductive Part where
  | created (event : CreateDomainEvent)
  | inferred (hierarchy : HierarchySnapshot)
  | freed (event : FreeDomainEvent)

namespace Part

/-- What the part does to the record. -/
def update : Part → DomainState → DomainState
  | created event => creation event
  | inferred hierarchy => inference hierarchy
  | freed event => tombstone event

/-- Parts that write one register at one time, or infer one fact, write the same. -/
def Agree : Part → Part → Prop
  | created a, created b =>
    a.timestamp = b.timestamp →
      a.parentId = b.parentId ∧ a.creatorTgid = b.creatorTgid ∧ a.creatorComm = b.creatorComm ∧
        a.rulesetId = b.rulesetId ∧ a.rulesetVersion = b.rulesetVersion
  | inferred a, inferred b =>
    a.parentId = b.parentId ∧ a.creatorTgid = b.creatorTgid ∧ a.creatorComm = b.creatorComm
  | _, _ => True

/-- Parts of a domain update that agree can be exchanged. -/
theorem update_comm {p q : Part} (h : p.Agree q) : Function.Commute p.update q.update := by
  cases p with
  | created a =>
    cases q with
    | created b => exact creation_comm h
    | inferred b => exact creation_frame a (fun _ => rfl) fun _ _ _ _ _ _ => rfl
    | freed b => exact creation_frame a (fun _ => rfl) fun _ _ _ _ _ _ => rfl
  -- An inference yields to creation facts in both orders
  | inferred a =>
    cases q with
    | created b =>
      exact (creation_frame b (g := inference a) (fun _ => rfl) fun _ _ _ _ _ _ => rfl).symm
    | inferred b => exact inference_comm h
    | freed b => exact fun _ => rfl
  | freed a =>
    cases q with
    | created b =>
      exact (creation_frame b (g := tombstone a) (fun _ => rfl) fun _ _ _ _ _ _ => rfl).symm
    | inferred b => exact fun _ => rfl
    | freed b => exact tombstone_comm a b

/-- The parts do not touch the denial count, -/
theorem update_raiseCount (p : Part) (n : UInt64) :
    Function.Commute p.update (raiseCount n) := by
  cases p with
  | created a => exact creation_frame a (fun _ => rfl) fun _ _ _ _ _ _ => rfl
  | inferred a => exact fun _ => rfl
  | freed a => exact fun _ => rfl

/-- nor the enforcements. -/
theorem update_applyEnforceDomain (p : Part) (e : EnforceDomainEvent) :
    Function.Commute p.update (applyEnforceDomain e) := by
  rw [show applyEnforceDomain e = _ from funext (applyEnforceDomain_eq e)]
  cases p with
  | created a => exact creation_frame a (fun _ => rfl) fun _ _ _ _ _ _ => rfl
  | inferred a => exact fun _ => rfl
  | freed a => exact fun _ => rfl

/-- A repeated part changes nothing. -/
theorem update_idem (p : Part) (s : DomainState) : p.update (p.update s) = p.update s := by
  cases p with
  | created a => exact Register.latest_idem lawful_creation a s
  | inferred a => exact inference_idem a s
  | freed a =>
    simp only [update, tombstone]
    rw [updateLatestTimestamp_idem, updateMax_idem]

end Part

end DomainState

end Landlock
