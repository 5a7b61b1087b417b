import LandlockObservability.ForStd.Line
import LandlockObservability.ForStd.List
import LandlockObservability.Spec.BatchRecords

/-!
# The texts in records

The texts that the records of batch mode are made of.  They have visible characters only,
whatever bytes the kernel captured, and captured bytes can be read back from their escaped
form.

## Key results

- `escape_inj`: different captured bytes are written differently
- `visible_denialFields`: no field of a denial has a space or a control character
-/

namespace Landlock

open Line

/-- Visible ASCII, and the mark for omitted bytes. -/
def visible (c : Char) : Bool := (0x21 ≤ c.toNat && c.toNat ≤ 0x7e) || c == '…'

/-! ## Escaped bytes -/

/-- A byte is written as it is, or with two digits. -/
private theorem toList_escapeByte (byte : UInt8) :
    (escapeByte byte).toList = if isPlain byte then [Char.ofNat byte.toNat]
      else ['\\', 'x', Nat.digitChar (byte.toNat / 16), Nat.digitChar (byte.toNat % 16)] := by
  unfold escapeByte
  split
  · exact String.toList_singleton _
  · rw [String.toList_append, String.toList_ofList, String.toList_ofList]
    rfl

/-- What an escaped byte consists of, for any condition on characters. -/
private theorem consists_escapeByte {p : Char → Bool}
    (hplain : ∀ n < 256, isPlain (UInt8.ofNat n) = true → p (Char.ofNat n) = true)
    (hmark : p '\\' = true) (hx : p 'x' = true)
    (hdigit : ∀ digit < 16, p (Nat.digitChar digit) = true) (byte : UInt8) :
    Consists p (escapeByte byte) := by
  have hlt := byte.toNat_lt
  intro c hc
  rw [toList_escapeByte] at hc
  split at hc
  · rename_i hbyte
    rw [List.mem_singleton.mp hc]
    exact hplain byte.toNat hlt (by rwa [UInt8.ofNat_toNat])
  · simp only [List.mem_cons, List.not_mem_nil, or_false] at hc
    rcases hc with rfl | rfl | rfl | rfl
    · exact hmark
    · exact hx
    · exact hdigit _ (by omega)
    · exact hdigit _ (by omega)

/-- The same for captured bytes, which may end with the mark. -/
theorem consists_escape {p : Char → Bool}
    (hplain : ∀ n < 256, isPlain (UInt8.ofNat n) = true → p (Char.ofNat n) = true)
    (hmark : p '\\' = true) (hx : p 'x' = true)
    (hdigit : ∀ digit < 16, p (Nat.digitChar digit) = true) (homitted : p '…' = true)
    {K : CapturedBytesOrigin} (value : CapturedBytes K) : Consists p (escape value) := by
  refine Consists.append (Consists.join fun text htext => ?_) ?_
  · obtain ⟨byte, -, rfl⟩ := List.mem_map.mp htext
    exact consists_escapeByte hplain hmark hx hdigit byte
  · split
    · intro c hc
      rw [List.mem_singleton.mp hc]
      exact homitted
    · exact fun c hc => by cases hc

/-- The character of a byte. -/
private theorem toNat_ofNat_byte (byte : UInt8) : (Char.ofNat byte.toNat).toNat = byte.toNat := by
  have hall : ∀ n < 256, (Char.ofNat n).toNat = n := by decide +kernel
  exact hall byte.toNat byte.toNat_lt

/-- A byte that is written as it is neither starts an escape nor is the mark. -/
private theorem plain_ne {byte : UInt8} (h : isPlain byte = true) :
    Char.ofNat byte.toNat ≠ '\\' ∧ Char.ofNat byte.toNat ≠ '…' := by
  have hall : ∀ n < 256, isPlain (UInt8.ofNat n) = true →
      Char.ofNat n ≠ '\\' ∧ Char.ofNat n ≠ '…' := by
    decide +kernel
  exact hall byte.toNat byte.toNat_lt (by rwa [UInt8.ofNat_toNat])

/-- The first byte can be read back from what follows it. -/
private theorem escapeByte_append_inj (b b' : UInt8) (r r' : List Char)
    (h : (escapeByte b).toList ++ r = (escapeByte b').toList ++ r') : b = b' ∧ r = r' := by
  have hb := b.toNat_lt
  have hb' := b'.toNat_lt
  rw [toList_escapeByte, toList_escapeByte] at h
  -- A plain byte does not start with a backslash
  split at h
  · rename_i hplain
    split at h
    · obtain ⟨hchar, hrest⟩ := List.cons.inj h
      have hvalue := congrArg Char.toNat hchar
      rw [toNat_ofNat_byte, toNat_ofNat_byte] at hvalue
      exact ⟨UInt8.toNat_inj.mp hvalue, hrest⟩
    · exact absurd (List.cons.inj h).1 (plain_ne hplain).1
  · split at h
    · rename_i hplain
      exact absurd (List.cons.inj h).1.symm (plain_ne hplain).1
    · simp only [List.cons_append, List.nil_append, List.cons.injEq, true_and] at h
      -- Two digits of base 16 determine the byte
      obtain ⟨hhigh, hlow, hrest⟩ := h
      have hdiv := Numeral.digitChar_inj (by omega) (by omega) hhigh
      have hmod := Numeral.digitChar_inj (by omega) (by omega) hlow
      exact ⟨UInt8.toNat_inj.mp (by omega), hrest⟩

/-- Neither the end nor the mark for omitted bytes is taken for a byte. -/
private theorem escapeByte_append_ne (omitted : Bool) (b : UInt8) (r : List Char) :
    (escapeByte b).toList ++ r ≠ if omitted then ['…'] else [] := by
  rw [toList_escapeByte]
  intro h
  cases omitted with
  | false => split at h <;> cases h
  | true =>
    split at h
    · rename_i hplain
      exact (plain_ne hplain).2 (List.cons.inj h).1
    · exact absurd (List.cons.inj h).1 (by decide)

/-- The escaped bytes and the mark. -/
private theorem toList_escape {K : CapturedBytesOrigin} (value : CapturedBytes K) :
    (escape value).toList = value.bytes.flatMap (fun byte => (escapeByte byte).toList) ++
      if value.bytesOmitted then ['…'] else [] := by
  rw [escape, String.toList_append, String.toList_join, List.flatMap_map]
  split <;> rfl

/-- Captured bytes can be read back from their escaped form. -/
theorem escape_inj {K : CapturedBytesOrigin} {a b : CapturedBytes K} (h : escape a = escape b) :
    a.bytes = b.bytes ∧ a.bytesOmitted = b.bytesOmitted := by
  have hlist := congrArg String.toList h
  rw [toList_escape, toList_escape] at hlist
  obtain ⟨hbytes, hend⟩ := List.flatMap_append_inj escapeByte_append_inj
    (escapeByte_append_ne a.bytesOmitted) (escapeByte_append_ne b.bytesOmitted) hlist
  refine ⟨hbytes, ?_⟩
  cases ha : a.bytesOmitted <;> cases hb : b.bytesOmitted <;> simp [ha, hb] at hend ⊢

/-! ## Visible texts -/

/-- Digits are visible. -/
private theorem visible_lowerHex (n : Nat) : Consists visible (lowerHex n) :=
  consists_numeral (by omega) (by omega) (by decide) n

/-- So are decimal ones, -/
theorem visible_decimal (n : Nat) : Consists visible (decimal n) :=
  consists_numeral (by omega) (by omega) (by decide) n

/-- IDs, -/
theorem visible_display {K : LandlockIdKind} (id : LandlockId K) : Consists visible id.display :=
  visible_lowerHex _

/-- and versions. -/
theorem visible_rulesetVersion (version : RulesetVersion) : Consists visible version.display :=
  ((visible_display _).append (by decide)).append (visible_decimal _)

/-- Whatever was captured, its escaped form is visible. -/
theorem visible_escape {K : CapturedBytesOrigin} (value : CapturedBytes K) :
    Consists visible (escape value) :=
  consists_escape (by decide +kernel) (by decide) (by decide) (by decide) (by decide) value

/-- The names of rights are visible. -/
private theorem visible_knownNames {K : AccessKind} (mask : AccessMask K) :
    ∀ name ∈ mask.knownNames, Consists visible name := by
  have htable : ∀ entry ∈ K.table, Consists visible entry.2 := by cases K <;> decide
  intro name hname
  obtain ⟨entry, hentry, rfl⟩ := List.mem_map.mp hname
  exact htable entry (List.mem_filter.mp hentry).1

/-- So is what blocked an access, -/
private theorem visible_accessBlockers {start : String} {names : List String}
    (hstart : Consists visible start) (hnames : ∀ name ∈ names, Consists visible name)
    (unknownBits : UInt64) : Consists visible (accessBlockers start names unknownBits) := by
  have hunknown : Consists visible ("0x" ++ lowerHex unknownBits.toNat) :=
    Consists.append (by decide) (visible_lowerHex _)
  have hparts : ∀ part ∈ names ++
      if unknownBits ≠ 0 then ["0x" ++ lowerHex unknownBits.toNat] else [],
      Consists visible part := by
    intro part hpart
    rcases List.mem_append.mp hpart with hname | hbits
    · exact hnames part hname
    · split at hbits
      · rw [List.mem_singleton.mp hbits]
        exact hunknown
      · cases hbits
  -- The list of names may be empty, and is written without its start then
  unfold accessBlockers
  dsimp only
  generalize names ++ (if unknownBits ≠ 0 then ["0x" ++ lowerHex unknownBits.toNat] else []) =
    parts at hparts ⊢
  split
  · exact hunknown
  · exact (hstart.append (by decide)).append (Consists.intercalate (by decide) hparts)

/-- a filesystem request, -/
private theorem visible_filesystemBlockers (blockers : FilesystemBlockers) :
    Consists visible (filesystemBlockers blockers) := by
  cases blockers with
  | access access => exact visible_accessBlockers (by decide) (visible_knownNames _) _
  | changeTopology => decide
  | other requestType access =>
    rw [filesystemBlockers]
    split
    · exact Consists.append (by decide) (visible_lowerHex _)
    · exact ((Consists.append (by decide) (visible_lowerHex _)).append (by decide)).append
        (visible_lowerHex _)

/-- or a network request. -/
private theorem visible_networkBlockers (blockersType : BlockerType) (access : NetworkAccess) :
    Consists visible (networkBlockers blockersType access) := by
  unfold networkBlockers
  split
  · exact visible_accessBlockers (by decide) (visible_knownNames _) _
  · exact ((Consists.append (by decide) (visible_lowerHex _)).append (by decide)).append
      (visible_lowerHex _)

/-- The domain of the other party is visible. -/
theorem visible_domainMembership (membership : DomainMembership) :
    Consists visible (domainMembership membership) := by
  cases membership with
  | unsandboxed => exact (by decide : Consists visible "0")
  | sandboxed id => exact visible_display id

/-- So is an age. -/
theorem visible_elapsed (firstNs latestNs : UInt64) :
    Consists visible (elapsed firstNs latestNs) := by
  unfold elapsed
  simp only
  split
  · exact (visible_decimal _).append (by decide)
  · split
    · exact (((visible_decimal _).append (by decide)).append (visible_decimal _)).append (by decide)
    · exact (((visible_decimal _).append (by decide)).append (visible_decimal _)).append (by decide)

/-- So are ports. -/
private theorem visible_networkTarget (event : DenyAccessNetEvent) :
    Consists visible (networkTarget event) := by
  have hsport : Consists visible ("sport:" ++ decimal event.sourcePort.toNat) :=
    Consists.append (by decide) (visible_decimal _)
  have hdport : Consists visible ("dport:" ++ decimal event.destinationPort.toNat) :=
    Consists.append (by decide) (visible_decimal _)
  unfold networkTarget
  simp only
  -- One port, the other, or both
  split
  · exact hsport
  · exact hdport
  · exact (hsport.append (by decide)).append hdport

/-- So is a flag. -/
theorem visible_flag (value : Bool) : Consists visible (flag value) := by
  cases value <;> decide

/-- The fields of a denial that come from the event. -/
theorem visible_denialFields {event : Event} {fields : DenialFields}
    (h : denialFields event = some fields) :
    Consists visible fields.blockers ∧ Consists visible fields.target := by
  -- Two kinds of denials are about a task
  have htask : ∀ (pid : ProcessId) (comm : CapturedCommand),
      Consists visible ("pid:" ++ decimal pid.value.toNat ++ ":" ++ escape comm) := fun pid comm =>
    ((Consists.append (by decide) (visible_decimal _)).append (by decide)).append
      (visible_escape comm)
  cases event with
  | denyAccessFs event =>
    cases h
    exact ⟨visible_filesystemBlockers _, visible_escape _⟩
  | denyAccessNet event =>
    cases h
    exact ⟨visible_networkBlockers _ _, visible_networkTarget _⟩
  | denyPtrace event =>
    cases h
    exact ⟨(by decide : Consists visible "ptrace"), htask _ _⟩
  | denyScopeSignal event =>
    cases h
    exact ⟨(by decide : Consists visible "Scope:signal"), htask _ _⟩
  | denyScopeAbstractUnixSocket event =>
    cases h
    exact ⟨(by decide : Consists visible "Scope:abstract_unix_socket"),
      Consists.append (by decide) (visible_escape _)⟩
  | _ => cases h

end Landlock
