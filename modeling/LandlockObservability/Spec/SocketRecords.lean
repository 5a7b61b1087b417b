import LandlockObservability.ForStd.Mask
import LandlockObservability.Model.Labels
import LandlockObservability.Model.SocketHandlers
import LandlockObservability.Spec.PathCapture

/-!
# Socket addresses end to end

What the kernel side reads from a socket address is what user space shows.  An abstract name
is captured whole or not at all, and decodes to its bytes; a port that was checked is stored
for the directions that the denied rights have, and shown for them.

## Key results

- `Producer.capture_eq_some_iff`: which addresses are captured, and as what
- `Producer.abstract_names_exact`: abstract names end to end
- `Producer.checked_port_shown`: ports end to end
-/

namespace Landlock.Producer

open Bytes Layout Wire

/-! ## Capturing a name -/

/-- The bytes after the NUL that an abstract name starts with. -/
def UnixAddress.name (addr : UnixAddress) : List UInt8 :=
  (List.range (addr.len.toInt - 3).toNat).map fun i => addr.sunPath (i + 1)

/-- The name of a peer's address, empty if it has none. -/
def abstractName : Option UnixAddress → List UInt8
  | none => []
  | some addr => addr.name

/-- The address is that of an abstract name, and the reads that are made succeed.  The read of
    the name is not made for an empty one. -/
structure Readable (addr : UnixAddress) (reads : NameReads) : Prop where
  readAddr : reads.addr = true
  longEnough : 3 ≤ addr.len.toInt
  notTooLong : addr.len.toInt ≤ 110
  abstract : addr.sunPath 0 = 0
  readLen : reads.len = true
  readFirst : reads.first = true
  readName : addr.len.toInt = 3 ∨ reads.name = true

/-- An address that is captured is absent or readable; the pointer to it is what it was read
    as. -/
def Capturable (pointer : Option UnixAddress) (reads : NameReads) : Prop :=
  ∀ addr, pointer = some addr → Readable addr reads

instance instDecidableReadable (addr : UnixAddress) (reads : NameReads) :
    Decidable (Readable addr reads) :=
  decidable_of_iff
    (reads.addr = true ∧ 3 ≤ addr.len.toInt ∧ addr.len.toInt ≤ 110 ∧ addr.sunPath 0 = 0 ∧
      reads.len = true ∧ reads.first = true ∧ (addr.len.toInt = 3 ∨ reads.name = true))
    ⟨fun h => ⟨h.1, h.2.1, h.2.2.1, h.2.2.2.1, h.2.2.2.2.1, h.2.2.2.2.2.1, h.2.2.2.2.2.2⟩,
      fun h => ⟨h.readAddr, h.longEnough, h.notTooLong, h.abstract, h.readLen, h.readFirst,
        h.readName⟩⟩

/-- Without an address there is nothing to read. -/
theorem capturable_none (reads : NameReads) : Capturable none reads :=
  fun _ h => (by cases h)

/-- An address is captured if it can be read. -/
theorem capturable_some {addr : UnixAddress} {reads : NameReads} :
    Capturable (some addr) reads ↔ Readable addr reads :=
  ⟨fun h => h addr rfl, fun h _ heq => Option.some.inj heq ▸ h⟩

instance instDecidableCapturable (reads : NameReads) :
    (pointer : Option UnixAddress) → Decidable (Capturable pointer reads)
  | none => isTrue (capturable_none reads)
  | some _ => decidable_of_iff _ capturable_some.symm

/-- An address is seen if it is there and the pointer to it was read. -/
private theorem NameReads.pointer_eq_some_iff {reads : NameReads} {address : Option UnixAddress}
    {addr : UnixAddress} :
    reads.pointer address = some addr ↔ reads.addr = true ∧ address = some addr := by
  rw [NameReads.pointer]
  cases reads.addr with
  | false => simp
  | true => simp

/-- The pointer is read right exactly if its read succeeds or there is no address. -/
private theorem NameReads.pointer_eq_iff {reads : NameReads} {address : Option UnixAddress} :
    reads.pointer address = address ↔ reads.addr = true ∨ address = none := by
  rw [NameReads.pointer]
  cases reads.addr with
  | false => simp [eq_comm]
  | true => simp

/-- The comparisons of the source are those of signed numbers. -/
private theorem lt_prefixLen_iff {len : Int32} : len < 3 ↔ len.toInt < 3 := Int32.lt_iff_toInt_lt

/-- The upper bound of a length, as a signed number. -/
private theorem gt_maximum_iff {len : Int32} :
    len > 3 + abstractUnixSocketNameMax ↔ 110 < len.toInt := Int32.lt_iff_toInt_lt

/-- The conversion of the length to an unsigned number changes nothing. -/
private theorem toNat_nameLen {len : Int32} (hlow : 3 ≤ len.toInt) (hhigh : len.toInt ≤ 110) :
    (len - 3).toUInt32.toNat = (len.toInt - 3).toNat := by
  have hthree : (3 : Int32).toInt = 3 := by decide
  have hsub : (len - 3).toInt = len.toInt - 3 := by
    rw [Int32.toInt_sub, hthree, Int.bmod_eq_of_le]
    · omega
    · omega
  have hnonneg : (0 : Int32) ≤ len - 3 := by
    rw [Int32.le_iff_toInt_le, hsub]
    exact Int.sub_nonneg_of_le hlow
  rw [Int32.toNat_toUInt32_of_le hnonneg, ← Int32.toNat_toInt, hsub]

/-- What is captured of an address whose length was read and is that of an abstract name. -/
private theorem capture_of_len {address : Option UnixAddress} {addr : UnixAddress}
    {reads : NameReads}
    (hpointer : reads.pointer address = some addr) (hread : reads.len = true)
    (hlow : 3 ≤ addr.len.toInt) (hhigh : addr.len.toInt ≤ 110) :
    captureAbstractUnixSocketName address reads =
      if reads.first = true ∧ addr.sunPath 0 = 0 ∧ (addr.len.toInt = 3 ∨ reads.name = true) then
        some (addr.name, UInt32.ofNat addr.name.length)
      else none := by
  have hcount := toNat_nameLen hlow hhigh
  have hzero : (addr.len - 3).toUInt32 ≠ 0 ↔ ¬ addr.len.toInt = 3 := by
    rw [Ne, ← UInt32.toNat_inj, hcount, UInt32.toNat_zero]
    omega
  have hname : ((List.range (addr.len - 3).toUInt32.toNat).map fun i => addr.sunPath (i + 1),
      (addr.len - 3).toUInt32) = (addr.name, UInt32.ofNat addr.name.length) := by
    rw [UnixAddress.name, List.length_map, List.length_range, ← hcount, UInt32.ofNat_toNat]
  have hbounds : ¬ (addr.len.toInt < 3 ∨ 110 < addr.len.toInt) := by omega
  -- With the length settled, three reads and the first byte decide
  simp only [captureAbstractUnixSocketName, hpointer, hread, if_true, lt_prefixLen_iff,
    gt_maximum_iff, if_neg hbounds, hzero, hname]
  cases reads.first <;> cases reads.name <;> by_cases hpath : addr.sunPath 0 = 0 <;>
    by_cases hempty : addr.len.toInt = 3 <;> simp [hpath, hempty]

/-- An address is captured exactly when it is read as absent or is readable, and then as its
    name. -/
theorem capture_eq_some_iff {address : Option UnixAddress} {reads : NameReads}
    {captured : List UInt8 × UInt32} :
    captureAbstractUnixSocketName address reads = some captured ↔
      Capturable (reads.pointer address) reads ∧
        captured = (abstractName (reads.pointer address),
          UInt32.ofNat (abstractName (reads.pointer address)).length) := by
  cases hpointer : reads.pointer address with
  | none =>
    rw [captureAbstractUnixSocketName, hpointer, Option.some_inj, eq_comm]
    exact ⟨fun h => ⟨capturable_none reads, h⟩, fun h => h.2⟩
  | some addr =>
    have haddr := (NameReads.pointer_eq_some_iff.mp hpointer).1
    rw [capturable_some]
    by_cases hbounds : reads.len = true ∧ 3 ≤ addr.len.toInt ∧ addr.len.toInt ≤ 110
    · obtain ⟨hread, hlow, hhigh⟩ := hbounds
      rw [capture_of_len hpointer hread hlow hhigh]
      split
      · rename_i hcaptured
        obtain ⟨hfirst, hpath, hname⟩ := hcaptured
        rw [Option.some_inj, eq_comm]
        exact ⟨fun h => ⟨⟨haddr, hlow, hhigh, hpath, hread, hfirst, hname⟩, h⟩, fun h => h.2⟩
      · rename_i hcaptured
        refine ⟨fun h => (by cases h), fun h => ?_⟩
        exact absurd ⟨h.1.readFirst, h.1.abstract, h.1.readName⟩ hcaptured
    · -- a length that cannot be read is zero, which is too short
      have hnone : captureAbstractUnixSocketName address reads = none := by
        simp only [captureAbstractUnixSocketName, hpointer]
        cases hread : reads.len with
        | false => rfl
        | true =>
          rw [if_pos]
          simp only [if_true, lt_prefixLen_iff, gt_maximum_iff]
          simp only [hread, true_and, not_and_or, Int.not_le] at hbounds
          exact hbounds
      rw [hnone]
      refine ⟨fun h => (by cases h), fun h => ?_⟩
      exact absurd ⟨h.1.readLen, h.1.longEnough, h.1.notTooLong⟩ hbounds

/-- A captured name fits its member. -/
theorem Capturable.length_le {address : Option UnixAddress} {reads : NameReads}
    (h : Capturable address reads) : (abstractName address).length ≤ 107 := by
  cases address with
  | none => exact Nat.zero_le _
  | some addr =>
    have hhigh := (h addr rfl).notTooLong
    rw [abstractName, UnixAddress.name, List.length_map, List.length_range]
    omega

/-- The name as the decoder represents it. -/
def Capturable.captured {address : Option UnixAddress} {reads : NameReads}
    (h : Capturable address reads) : CapturedAbstractUnixSocketName :=
  ⟨abstractName address, false, nofun, h.length_le, nofun⟩

/-! ## Records with raw headers -/

variable (en : Endian)

/-- The command of a creator fits its member. -/
theorem KernelHierarchy.length_creatorComm_le (h : KernelHierarchy) :
    h.creatorComm.length ≤ 16 := by
  rw [creatorComm]
  split
  · rw [readStr, List.length_append, List.length_take, List.length_singleton]
    omega
  · decide

/-- The stores of a network denial fit its record. -/
private theorem fits_netStores (denial : NetDenial) (ports : UInt64 × UInt64) :
    ∀ a ∈ netStores en denial ports, Fits (slots .denyAccessNet) a := by
  refine fits_of_memberSize (of_decide_eq_true rfl) ?_
  simp [netStores, fillDenyHeaderFrom, memberSize, KernelHierarchy.length_creatorComm_le]

/-- So do those of a socket denial. -/
theorem fits_peerStores (denial : PeerDenial) {name : List UInt8} (hname : name.length ≤ 107)
    (nameLen : UInt32) :
    ∀ a ∈ peerStores en denial name nameLen, Fits (slots .denyScopeAbstractUnixSocket) a := by
  refine fits_of_memberSize (of_decide_eq_true rfl) ?_
  simp [peerStores, fillDenyHeaderFrom, memberSize, KernelHierarchy.length_creatorComm_le, hname]

/-- A network denial stores into no member twice, -/
private theorem nodup_netStores (denial : NetDenial) (ports : UInt64 × UInt64) :
    ((netStores en denial ports).map Prod.fst).Nodup := of_decide_eq_true rfl

/-- and neither does a socket denial. -/
theorem nodup_peerStores (denial : PeerDenial) (name : List UInt8) (nameLen : UInt32) :
    ((peerStores en denial name nameLen).map Prod.fst).Nodup := of_decide_eq_true rfl

/-- A record that holds a kind's type byte decodes to an event of that kind only. -/
private theorem kind_of_decode {record : List UInt8} {kind : EventKind} {event : Event}
    (htype : HasAt record 8 [kind.value]) (hdecode : decode en record = .ok event) :
    event.kind = kind := by
  obtain ⟨-, hholds⟩ := (decode_eq_ok_iff en).mp hdecode
  have htype' : HasAt record 8 [event.kind.value] :=
    hholds (.type, [event.kind.value]) (by simp [Event.fields])
  have hvalue := Option.some.inj ((hasAt_singleton.mp htype).symm.trans (hasAt_singleton.mp htype'))
  have hkind := EventKind.ofValue_eq_some_iff.mpr ⟨EventKind.mem_all kind, rfl⟩
  have hkind' := EventKind.ofValue_eq_some_iff.mpr ⟨EventKind.mem_all event.kind, rfl⟩
  rw [hvalue] at hkind
  exact Option.some.inj (hkind'.symm.trans hkind)

/-! ## Abstract names end to end -/

section Names

variable {en} {denial : PeerDenial} {address : Option UnixAddress} {reads : NameReads}

/-- A submitted record is that of a name that was captured. -/
private theorem mem_handleDenyScopeAbstractUnixSocket {record : List UInt8} :
    record ∈ handleDenyScopeAbstractUnixSocket en true denial address reads ↔
      Capturable (reads.pointer address) reads ∧
        record = fill (slots .denyScopeAbstractUnixSocket) (List.replicate sizeOf 0)
          (peerStores en denial (abstractName (reads.pointer address))
            (UInt32.ofNat (abstractName (reads.pointer address)).length)) := by
  simp only [handleDenyScopeAbstractUnixSocket, allocEvent, if_true]
  cases hcapture : captureAbstractUnixSocketName address reads with
  | none =>
    refine ⟨fun h => absurd h List.not_mem_nil, fun h => ?_⟩
    have hsome := capture_eq_some_iff.mpr ⟨h.1, rfl⟩
    rw [hcapture] at hsome
    cases hsome
  | some captured =>
    obtain ⟨hcapturable, rfl⟩ := capture_eq_some_iff.mp hcapture
    simp [hcapturable]

/-- At most one record is submitted. -/
private theorem length_handleDenyScopeAbstractUnixSocket_le :
    (handleDenyScopeAbstractUnixSocket en true denial address reads).length ≤ 1 := by
  simp only [handleDenyScopeAbstractUnixSocket, allocEvent, if_true]
  split <;> simp

variable {record : List UInt8}
  (h : record ∈ handleDenyScopeAbstractUnixSocket en true denial address reads)
include h

/-- A submitted record holds what was stored. -/
private theorem holds_peerStores :
    record.length = recordSize ∧
      Holds record .denyScopeAbstractUnixSocket (peerStores en denial
        (abstractName (reads.pointer address))
        (UInt32.ofNat (abstractName (reads.pointer address)).length)) := by
  obtain ⟨hcapturable, hrecord⟩ := mem_handleDenyScopeAbstractUnixSocket.mp h
  have hfits := fits_peerStores en denial hcapturable.length_le
    (UInt32.ofNat (abstractName (reads.pointer address)).length)
  have hnodup := nodup_peerStores en denial (abstractName (reads.pointer address))
    (UInt32.ofNat (abstractName (reads.pointer address)).length)
  rw [hrecord]
  exact ⟨length_fill_record hfits, holds_fill hfits hnodup⟩

/-- The name's length and bytes are where the decoder reads them. -/
private theorem nameAt_of_mem {name : CapturedAbstractUnixSocketName} :
    abstractUnixSocketNameAt en record 92 96 = .ok name ↔
      name.bytes = abstractName (reads.pointer address) := by
  obtain ⟨hcapturable, -⟩ := mem_handleDenyScopeAbstractUnixSocket.mp h
  obtain ⟨hlength, hholds⟩ := holds_peerStores h
  have hcaptured : abstractUnixSocketNameAt en record 92 96 = .ok hcapturable.captured := by
    have hlen := hholds (.abstractNameLen,
        word32 en (UInt32.ofNat (abstractName (reads.pointer address)).length))
      (by simp [peerStores])
    have hname := hholds (.abstractName, abstractName (reads.pointer address))
      (by simp [peerStores])
    rw [abstractUnixSocketNameAt_eq_ok_iff hlength en (by decide) (by decide),
      ← word32_abstractName]
    exact ⟨hlen, hname⟩
  rw [hcaptured, Except.ok.injEq]
  constructor
  · rintro rfl
    rfl
  -- A name is its bytes: none of a socket is marked as cut off
  · intro hbytes
    exact CapturedBytes.ext hbytes.symm (bytesOmitted_eq_false name (by decide)).symm

/-- Whatever the record decodes to has the name. -/
private theorem name_of_decode {event : Event} (hdecode : decode en record = .ok event) :
    ∃ denial, event = .denyScopeAbstractUnixSocket denial ∧
      denial.abstractName.bytes = abstractName (reads.pointer address) := by
  obtain ⟨hlength, hholds⟩ := holds_peerStores h
  have hkind := kind_of_decode en
    (hholds (.type, [EventKind.denyScopeAbstractUnixSocket.value]) (by simp [peerStores])) hdecode
  -- The kind leaves one constructor of `Event`
  cases event <;> cases hkind
  rename_i denial
  refine ⟨denial, rfl, (nameAt_of_mem h).mp ?_⟩
  obtain ⟨-, hfields⟩ := (decode_eq_ok_iff en).mp hdecode
  have hlen := hfields (.abstractNameLen, ofWord en 4 denial.abstractName.bytes.length)
    (by simp [Event.fields, Event.variantFields])
  have hname := hfields (.abstractName, denial.abstractName.bytes)
    (by simp [Event.fields, Event.variantFields])
  rw [abstractUnixSocketNameAt_eq_ok_iff hlength en (by decide) (by decide)]
  exact ⟨hlen, hname⟩

end Names

/-- What the kernel objects of an event with valid fields are read as. -/
def KernelHierarchy.ofContext (context : DenialContext) : KernelHierarchy where
  id := context.hierarchy.domainId.value
  numDenials := context.cumulativeDenialCount
  parent := context.hierarchy.parentId.map LandlockId.value
  details := some (some context.hierarchy.creatorTgid.value, context.hierarchy.creatorComm.bytes)

@[inherit_doc KernelHierarchy.ofContext]
def PeerDenial.ofEvent (event : DenyScopeAbstractUnixSocketEvent) : PeerDenial where
  timestampNs := event.timestamp.nanoseconds
  hierarchy := .ofContext event.context
  sameExec := event.context.sameExec
  logged := event.context.logged
  peerDomainId := membershipId event.peerDomain
  peerPid := event.peerPid.map TaskId.value

/-- A missing parent is stored as zero. -/
private theorem getD_map_parent (parent : Option DomainId) :
    (parent.map LandlockId.value).getD 0 = optionalId parent := by
  cases parent <;> rfl

/-- So is an unknown process. -/
private theorem getD_map_pid (pid : Option ProcessId) :
    (pid.map TaskId.value).getD 0 = optionalPid pid := by
  cases pid <;> rfl

/-- The header of valid fields is stored as the producer's model stores it. -/
private theorem fillDenyHeaderFrom_ofContext (context : DenialContext) :
    fillDenyHeaderFrom en (.ofContext context) = fillDenyHeader en context := by
  simp only [fillDenyHeaderFrom, fillDenyHeader, KernelHierarchy.ofContext, getD_map_parent,
    KernelHierarchy.creatorTgid, KernelHierarchy.creatorComm, Option.getD_some]

/-- With valid fields the record decodes to the event with the captured name. -/
private theorem decode_ofEvent {event : DenyScopeAbstractUnixSocketEvent}
    {address : Option UnixAddress}
    {reads : NameReads} {record : List UInt8}
    (h : record ∈ handleDenyScopeAbstractUnixSocket en true (.ofEvent event) address reads) :
    ∃ name : CapturedAbstractUnixSocketName, name.bytes = abstractName (reads.pointer address) ∧
      decode en record =
        .ok (.denyScopeAbstractUnixSocket { event with abstractName := name }) := by
  obtain ⟨hcapturable, -⟩ := mem_handleDenyScopeAbstractUnixSocket.mp h
  obtain ⟨hlength, hholds⟩ := holds_peerStores h
  refine ⟨hcapturable.captured, rfl, (decode_eq_ok_iff en).mpr ⟨hlength, Holds.of_stored hholds ?_⟩⟩
  -- The same stores as those of `encode`, in another order
  have hperm : (stores en (.denyScopeAbstractUnixSocket
      { event with abstractName := hcapturable.captured })).Perm
      (peerStores en (.ofEvent event) (abstractName (reads.pointer address))
        (UInt32.ofNat (abstractName (reads.pointer address)).length)) := by
    simp only [peerStores, PeerDenial.ofEvent, fillDenyHeaderFrom_ofContext, getD_map_pid]
    exact List.perm_append_comm_assoc [_, _] [_, _] _
  intro f hf
  obtain ⟨a, ha, hmember, hbytes⟩ := fields_stored en _ f hf
  exact ⟨a, hperm.mem_iff.mp ha, hmember, hbytes⟩

/-- What is promised for a peer with an address.  A record is submitted exactly for an absent
    address, or for one that is abstract, no longer than a name can be and readable.  Its name
    decodes to the bytes after the leading NUL, whatever the other fields are; with valid fields
    the record decodes to the event with that name. -/
structure NameExact (address : Option UnixAddress) (reads : NameReads) : Prop where
  submitted : ∀ denial, handleDenyScopeAbstractUnixSocket en true denial address reads ≠ [] ↔
    address = none ∨ ∃ addr, address = some addr ∧ Readable addr reads
  atMostOne : ∀ denial,
    (handleDenyScopeAbstractUnixSocket en true denial address reads).length ≤ 1
  accepted : ∀ denial, ∀ record ∈ handleDenyScopeAbstractUnixSocket en true denial address reads,
    ∃ name, abstractUnixSocketNameAt en record 92 96 = .ok name ∧ name.bytes = abstractName address
  named : ∀ denial, ∀ record ∈ handleDenyScopeAbstractUnixSocket en true denial address reads,
    ∀ event, decode en record = .ok event → ∃ denial, event = .denyScopeAbstractUnixSocket denial ∧
      denial.abstractName.bytes = abstractName address
  decoded : ∀ event,
    ∀ record ∈ handleDenyScopeAbstractUnixSocket en true (.ofEvent event) address reads,
      ∃ name, name.bytes = abstractName address ∧ decode en record =
        .ok (.denyScopeAbstractUnixSocket { event with abstractName := name })

section Exactness

variable {en} {address : Option UnixAddress} {reads : NameReads}

/-- A record is submitted exactly for an address that can be captured. -/
private theorem submitted_iff (denial : PeerDenial) :
    handleDenyScopeAbstractUnixSocket en true denial address reads ≠ [] ↔
      Capturable (reads.pointer address) reads := by
  constructor
  · intro hne
    obtain ⟨record, h⟩ := List.exists_mem_of_ne_nil _ hne
    exact (mem_handleDenyScopeAbstractUnixSocket.mp h).1
  · intro h
    exact List.ne_nil_of_mem (mem_handleDenyScopeAbstractUnixSocket.mpr ⟨h, rfl⟩)

/-- The promise is kept if the address is read as it is. -/
private theorem nameExact_of_pointer (h : reads.pointer address = address) :
    NameExact en address reads where
  submitted := fun denial => by
    rw [submitted_iff, h]
    cases address with
    | none => exact iff_of_true (capturable_none reads) (.inl rfl)
    | some addr => simp [capturable_some]
  atMostOne := fun _ => length_handleDenyScopeAbstractUnixSocket_le
  -- Whatever is submitted has the name in it
  accepted := fun denial record hrecord => by
    obtain ⟨hcapturable, -⟩ := mem_handleDenyScopeAbstractUnixSocket.mp hrecord
    exact ⟨hcapturable.captured, (nameAt_of_mem hrecord).mpr rfl, congrArg abstractName h⟩
  named := fun denial record hrecord event hdecode => by
    obtain ⟨e, he, hname⟩ := name_of_decode hrecord hdecode
    exact ⟨e, he, hname.trans (congrArg abstractName h)⟩
  decoded := fun event record hrecord => by
    obtain ⟨name, hname, hdecode⟩ := decode_ofEvent en hrecord
    exact ⟨name, hname.trans (congrArg abstractName h), hdecode⟩

/-- It is not kept for an address whose pointer cannot be read: there is a record, as if the
    peer had no address. -/
private theorem not_nameExact {addr : UnixAddress} (h : reads.addr = false) :
    ¬ NameExact en (some addr) reads := by
  intro hexact
  have hpointer : reads.pointer (some addr) = none := by simp [NameReads.pointer, h]
  let denial : PeerDenial := ⟨0, ⟨0, 0, none, none⟩, false, false, 0, none⟩
  have hsubmitted : handleDenyScopeAbstractUnixSocket en true denial (some addr) reads ≠ [] := by
    rw [submitted_iff, hpointer]
    exact capturable_none reads
  rcases (hexact.submitted denial).mp hsubmitted with hnone | ⟨addr', -, hreadable⟩
  · cases hnone
  · have hread := hreadable.readAddr
    rw [h] at hread
    cases hread

end Exactness

/-- Abstract names are exact for a peer and given outcomes of the reads if and only if the
    pointer to its address is read or there is no address.  Where this is so, denials with
    different names have different keys. -/
theorem abstract_names_exact (en : Endian) :
    (∀ address reads, NameExact en address reads ↔ reads.addr = true ∨ address = none) ∧
    ∀ denial denial' address address' reads reads',
      (reads.addr = true ∨ address = none) → (reads'.addr = true ∨ address' = none) →
      ∀ record ∈ handleDenyScopeAbstractUnixSocket en true denial address reads,
      ∀ record' ∈ handleDenyScopeAbstractUnixSocket en true denial' address' reads',
      ∀ event event', decode en record = .ok event → decode en record' = .ok event' →
        (denialFacts event).map Prod.fst = (denialFacts event').map Prod.fst →
          abstractName address = abstractName address' := by
  refine ⟨fun address reads => ⟨fun hexact => ?_, fun h => ?_⟩, ?_⟩
  · cases haddr : reads.addr with
    | true => exact .inl rfl
    | false =>
      cases address with
      | none => exact .inr rfl
      | some addr => exact absurd hexact (not_nameExact haddr)
  · exact nameExact_of_pointer (NameReads.pointer_eq_iff.mpr h)
  · intro denial denial' address address' reads reads' hread hread' record h record' h' event
      event' hdecode hdecode' hkey
    obtain ⟨e, rfl, hname⟩ := name_of_decode h hdecode
    obtain ⟨e', rfl, hname'⟩ := name_of_decode h' hdecode'
    rw [NameReads.pointer_eq_iff.mpr hread] at hname
    rw [NameReads.pointer_eq_iff.mpr hread'] at hname'
    -- The name is part of the key
    have hnames : e.abstractName = e'.abstractName := by
      simp only [denialFacts, Option.map_some, Option.some_inj, DenialKey.abstractUnixSocket.injEq,
        AbstractUnixSocketDenialKey.mk.injEq] at hkey
      exact hkey.2.2
    rw [← hname, ← hname', hnames]

/-- The address of the abstract name `abc`. -/
def abcAddress : UnixAddress := ⟨6, fun i => [0, 97, 98, 99].getD i 0⟩

/-- Only the pointer to the address cannot be read. -/
def pointerUnread : NameReads := ⟨false, true, true, true⟩

/-- The name is exact if every read succeeds, and not if only the pointer cannot be read. -/
theorem abstract_names_exact_abc :
    NameExact .little (some abcAddress) ⟨true, true, true, true⟩ ∧
      ¬ NameExact .little (some abcAddress) pointerUnread := by
  refine ⟨((abstract_names_exact .little).1 _ _).mpr (.inl rfl), fun hexact => ?_⟩
  rcases ((abstract_names_exact .little).1 _ _).mp hexact with h | h <;> cases h

/-- A denial whose peer has the name `abc` is submitted, decodes without error to one with an
    empty name, and cannot be told from that of a peer without an address. -/
theorem abcAddress_unnamed :
    abstractName (some abcAddress) = [97, 98, 99] ∧
    ∀ event, ∃ record,
      handleDenyScopeAbstractUnixSocket .little true (.ofEvent event) (some abcAddress)
        pointerUnread = [record] ∧
      handleDenyScopeAbstractUnixSocket .little true (.ofEvent event) none pointerUnread =
        [record] ∧
      ∃ name : CapturedAbstractUnixSocketName, name.bytes = [] ∧ decode .little record =
        .ok (.denyScopeAbstractUnixSocket { event with abstractName := name }) := by
  refine ⟨by decide, fun event => ⟨_, rfl, rfl, ?_⟩⟩
  exact @decode_ofEvent .little event (some abcAddress) pointerUnread _ List.mem_cons_self

-- the NUL inside the name and the one at its end are kept
example :
    abstractName (some ⟨6, fun i => if i = 1 then 97 else 0⟩) = [97, 0, 0] := by
  decide

/-! ## Ports end to end -/

/-- The rights `bind_tcp` and `bind_udp`. -/
def hasBindRight (access : UInt64) : Bool := Mask.bit access 0 || Mask.bit access 2

/-- The rights `connect_tcp` and `connect_send_udp`. -/
def hasConnectRight (access : UInt64) : Bool := Mask.bit access 1 || Mask.bit access 3

/-- A mask has a bit where its intersection with the bit is not empty. -/
private theorem and_shift_ne_zero {access k : UInt64} (h : k < 64) :
    access &&& (1 <<< k) ≠ 0 ↔ Mask.bit access k.toNat = true :=
  Mask.and_ne_zero_iff (Mask.toNat_shiftLeft h)

/-- The masks of the kernel side select the rights of a direction. -/
private theorem and_landlockAccessNetBind {access : UInt64} :
    access &&& landlockAccessNetBind ≠ 0 ↔ hasBindRight access = true := by
  rw [landlockAccessNetBind, Mask.and_or_ne_zero, and_shift_ne_zero (by decide),
    and_shift_ne_zero (by decide), hasBindRight, Bool.or_eq_true]
  rfl

/-- So does the other mask. -/
private theorem and_landlockAccessNetConnectSend {access : UInt64} :
    access &&& landlockAccessNetConnectSend ≠ 0 ↔ hasConnectRight access = true := by
  rw [landlockAccessNetConnectSend, Mask.and_or_ne_zero, and_shift_ne_zero (by decide),
    and_shift_ne_zero (by decide), hasConnectRight, Bool.or_eq_true]
  rfl

/-- The bits of the table decide which names a mask has. -/
private theorem any_knownNames (mask : NetworkAccess) (p : String → Bool) :
    mask.knownNames.any p =
      (Mask.bit mask.bits 0 && p "bind_tcp" || (Mask.bit mask.bits 1 && p "connect_tcp" ||
        (Mask.bit mask.bits 2 && p "bind_udp" ||
          Mask.bit mask.bits 3 && p "connect_send_udp"))) := by
  -- A name of the table is that of one bit
  have hbit : ∀ k : UInt64, k < 64 →
      (mask.bits &&& (1 <<< k) != 0) = Mask.bit mask.bits k.toNat := by
    intro k hk
    rw [Bool.eq_iff_iff, bne_iff_ne, and_shift_ne_zero hk]
  rw [AccessMask.knownNames, AccessMask.knownEntries, List.any_map, List.any_filter]
  simp only [AccessKind.table, networkAccessNames, accessTable, List.map_cons, List.map_nil,
    List.any_cons, List.any_nil, Function.comp_apply, Bool.or_false, hbit 0 (by decide),
    hbit 1 (by decide), hbit 2 (by decide), hbit 3 (by decide)]
  rfl

/-- The names of user space select the same rights. -/
private theorem any_bind (mask : NetworkAccess) :
    (mask.knownNames.any fun name => "bind_".isPrefixOf name) = hasBindRight mask.bits := by
  have htcp : "bind_".isPrefixOf "bind_tcp" = true := by decide +kernel
  have hudp : "bind_".isPrefixOf "bind_udp" = true := by decide +kernel
  have hconnect : "bind_".isPrefixOf "connect_tcp" = false := by decide +kernel
  have hsend : "bind_".isPrefixOf "connect_send_udp" = false := by decide +kernel
  rw [any_knownNames, htcp, hudp, hconnect, hsend, hasBindRight]
  simp

/-- The same for the other direction. -/
private theorem any_connect (mask : NetworkAccess) :
    (mask.knownNames.any fun name => "connect_".isPrefixOf name) = hasConnectRight mask.bits := by
  have htcp : "connect_".isPrefixOf "bind_tcp" = false := by decide +kernel
  have hudp : "connect_".isPrefixOf "bind_udp" = false := by decide +kernel
  have hconnect : "connect_".isPrefixOf "connect_tcp" = true := by decide +kernel
  have hsend : "connect_".isPrefixOf "connect_send_udp" = true := by decide +kernel
  rw [any_knownNames, htcp, hudp, hconnect, hsend, hasConnectRight]
  simp

section Ports

variable {en} {denial : NetDenial} {socketFamily : UInt16} {address : SockaddrIn}
  {addrlen : Int32}

/-- The port that was checked, zero if there is none. -/
def checkedPort (en : Endian) (socketFamily : UInt16) (address : SockaddrIn) (addrlen : Int32) :
    UInt64 :=
  if hasCheckedPort addrlen address.family socketFamily then
    (bpfNtohs en address.sinPort).toUInt64 else 0

/-- The checked port is projected to the directions of the denied rights. -/
theorem projectCheckedPort_eq (access : UInt64) :
    projectCheckedPort en access socketFamily address addrlen =
      (if hasBindRight access then checkedPort en socketFamily address addrlen else 0,
       if hasConnectRight access then checkedPort en socketFamily address addrlen else 0) := by
  simp only [projectCheckedPort, legacySourcePort, legacyDestinationPort, checkedPort,
    and_landlockAccessNetBind, and_landlockAccessNetConnectSend]
  cases hasCheckedPort addrlen address.family socketFamily <;> cases hasBindRight access <;>
    cases hasConnectRight access <;> rfl

/-- The record of a network denial. -/
def netRecord (en : Endian) (denial : NetDenial) (ports : UInt64 × UInt64) : List UInt8 :=
  fill (slots .denyAccessNet) (List.replicate sizeOf 0) (netStores en denial ports)

/-- The record of a network denial holds what was stored. -/
theorem holds_netStores (ports : UInt64 × UInt64) :
    (netRecord en denial ports).length = recordSize ∧
      Holds (netRecord en denial ports) .denyAccessNet (netStores en denial ports) := by
  have hfits := fits_netStores en denial ports
  exact ⟨length_fill_record hfits, holds_fill hfits (nodup_netStores en denial ports)⟩

/-- Two words that a record holds at one place are the same. -/
private theorem word64_unique {record : List UInt8} {offset : Nat} {v v' : UInt64}
    (hlength : record.length = recordSize) (hoffset : offset + 8 ≤ recordSize)
    (h : HasAt record offset (word64 en v)) (h' : HasAt record offset (word64 en v')) : v = v' :=
  ((u64_eq_iff hlength en hoffset).mpr h).symm.trans ((u64_eq_iff hlength en hoffset).mpr h')

@[inherit_doc word64_unique]
theorem word32_unique {record : List UInt8} {offset : Nat} {v v' : UInt32}
    (hlength : record.length = recordSize) (hoffset : offset + 4 ≤ recordSize)
    (h : HasAt record offset (word32 en v)) (h' : HasAt record offset (word32 en v')) : v = v' :=
  ((u32_eq_iff hlength en hoffset).mpr h).symm.trans ((u32_eq_iff hlength en hoffset).mpr h')

/-- Whatever the record decodes to has the rights and the ports that were stored. -/
private theorem ports_of_decode {ports : UInt64 × UInt64} {event : Event}
    (hdecode : decode en (netRecord en denial ports) = .ok event) :
    ∃ e, event = .denyAccessNet e ∧ e.blockersType.raw = denial.blockersType ∧
      e.blockersAccess.bits = denial.blockersAccess ∧
      (e.sourcePort, e.destinationPort) = ports := by
  obtain ⟨hlength, hholds⟩ : (netRecord en denial ports).length = recordSize ∧
      Holds (netRecord en denial ports) .denyAccessNet (netStores en denial ports) :=
    holds_netStores ports
  have hkind := kind_of_decode en
    (hholds (.type, [EventKind.denyAccessNet.value]) (by simp [netStores])) hdecode
  cases event <;> cases hkind
  rename_i e
  obtain ⟨-, hfields⟩ := (decode_eq_ok_iff en).mp hdecode
  -- What was decoded and what was stored are both held at the offset of the member
  refine ⟨e, rfl, ?_, ?_, Prod.ext ?_ ?_⟩
  · exact word32_unique hlength (by decide : 52 + 4 ≤ recordSize)
      (hfields (.blockersType, word32 en e.blockersType.raw)
        (by simp [Event.fields, Event.variantFields]))
      (hholds (.blockersType, word32 en denial.blockersType) (by simp [netStores]))
  · exact word64_unique hlength (by decide : 64 + 8 ≤ recordSize)
      (hfields (.blockersAccess, word64 en e.blockersAccess.bits)
        (by simp [Event.fields, Event.variantFields]))
      (hholds (.blockersAccess, word64 en denial.blockersAccess) (by simp [netStores]))
  · exact word64_unique hlength (by decide : 80 + 8 ≤ recordSize)
      (hfields (.sport, word64 en e.sourcePort) (by simp [Event.fields, Event.variantFields]))
      (hholds (.sport, word64 en ports.1) (by simp [netStores]))
  · exact word64_unique hlength (by decide : 88 + 8 ≤ recordSize)
      (hfields (.dport, word64 en e.destinationPort) (by simp [Event.fields, Event.variantFields]))
      (hholds (.dport, word64 en ports.2) (by simp [netStores]))

/-- The target of a network denial with one port for the directions that are known. -/
def portTarget (separator : String) (access : UInt64) (port : UInt64) : String :=
  let sport (port : UInt64) := "sport:" ++ decimal port.toNat
  let dport (port : UInt64) := "dport:" ++ decimal port.toNat
  match hasBindRight access, hasConnectRight access with
  | true, false => sport port
  | false, true => dport port
  | true, true => sport port ++ separator ++ dport port
  | false, false => sport 0 ++ separator ++ dport 0

/-- Both front ends show the projected port for the known directions. -/
private theorem networkTarget_eq {e : DenyAccessNetEvent} {port : UInt64}
    (htype : e.blockersType = .netAccess)
    (hports : (e.sourcePort, e.destinationPort) =
      (if hasBindRight e.blockersAccess.bits then port else 0,
       if hasConnectRight e.blockersAccess.bits then port else 0)) :
    networkTarget e = portTarget "," e.blockersAccess.bits port ∧
      Tui.networkTarget e = portTarget ", " e.blockersAccess.bits port := by
  obtain ⟨hsource, hdestination⟩ := Prod.mk.inj hports
  simp only [networkTarget, Tui.networkTarget, portTarget, htype, if_true, any_bind, any_connect,
    hsource, hdestination]
  cases hasBindRight e.blockersAccess.bits <;> cases hasConnectRight e.blockersAccess.bits <;>
    exact ⟨rfl, rfl⟩

@[inherit_doc KernelHierarchy.ofContext]
def NetDenial.ofEvent (event : DenyAccessNetEvent) : NetDenial where
  timestampNs := event.timestamp.nanoseconds
  hierarchy := .ofContext event.context
  blockersType := event.blockersType.raw
  blockersAccess := event.blockersAccess.bits
  sameExec := event.context.sameExec
  logged := event.context.logged

/-- With valid fields the record decodes to the event with the stored ports. -/
private theorem decode_netRecord_ofEvent (event : DenyAccessNetEvent) (ports : UInt64 × UInt64) :
    decode en (netRecord en (.ofEvent event) ports) =
      .ok (.denyAccessNet { event with sourcePort := ports.1, destinationPort := ports.2 }) := by
  have hrecord : netRecord en (.ofEvent event) ports = encode en
      (.denyAccessNet { event with sourcePort := ports.1, destinationPort := ports.2 }) := by
    simp only [netRecord, netStores, NetDenial.ofEvent, fillDenyHeaderFrom_ofContext]
    rfl
  rw [hrecord]
  exact decode_encode en _

/-- The port that was checked is shown for the directions of the denied rights, and zero where
    there is no right of a known direction; the two front ends differ in a space.  No port other
    than the checked one or zero is stored, whatever was denied. -/
theorem checked_port_shown (en : Endian) (socketFamily : UInt16) (address : SockaddrIn)
    (addrlen : Int32) :
    (∀ denial, ∃ record,
      handleDenyAccessNet en true denial socketFamily address addrlen = [record] ∧
      ∀ event, decode en record = .ok event →
        ∃ e, event = .denyAccessNet e ∧ e.blockersType.raw = denial.blockersType ∧
        e.blockersAccess.bits = denial.blockersAccess ∧
        (e.sourcePort = checkedPort en socketFamily address addrlen ∨ e.sourcePort = 0) ∧
        (e.destinationPort = checkedPort en socketFamily address addrlen ∨ e.destinationPort = 0) ∧
        (denial.blockersType = BlockerType.netAccess.raw →
          (denialFields event).map DenialFields.target =
            some (portTarget "," denial.blockersAccess
              (checkedPort en socketFamily address addrlen)) ∧
          ∀ u, Tui.targetEvent u event =
            portTarget ", " denial.blockersAccess
              (checkedPort en socketFamily address addrlen))) ∧
    ∀ event, ∃ record sourcePort destinationPort,
      handleDenyAccessNet en true (.ofEvent event) socketFamily address addrlen = [record] ∧
      decode en record = .ok (.denyAccessNet { event with sourcePort, destinationPort }) := by
  constructor
  · intro denial
    refine ⟨netRecord en denial _, rfl, ?_⟩
    intro event hdecode
    obtain ⟨e, rfl, htype, haccess, hports⟩ := ports_of_decode hdecode
    rw [projectCheckedPort_eq, ← haccess] at hports
    obtain ⟨hsource, hdestination⟩ := Prod.mk.inj hports
    refine ⟨e, rfl, htype, haccess, ?_, ?_, ?_⟩
    · rw [hsource]
      split
      · exact .inl rfl
      · exact .inr rfl
    · rw [hdestination]
      split
      · exact .inl rfl
      · exact .inr rfl
    -- The labels of both front ends are about rights only for this type of request
    · intro hnet
      have hnet' : e.blockersType = .netAccess := by
        rw [← htype] at hnet
        exact congrArg BlockerType.mk hnet
      obtain ⟨hbatch, htui⟩ := networkTarget_eq hnet' hports
      rw [← haccess]
      exact ⟨congrArg some hbatch, fun _ => htui⟩
  · intro event
    exact ⟨netRecord en (.ofEvent event) _, _, _, rfl, decode_netRecord_ofEvent event _⟩

end Ports

end Landlock.Producer
