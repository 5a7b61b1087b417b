import LandlockObservability.ForStd.Mask
import LandlockObservability.Model.Labels
import LandlockObservability.Spec.BatchTexts

/-!
# Blocker labels lose nothing

A mask is made of the bits that the tables name and of the others, and a label writes both.
The labels of both front ends are a list of tokens, joined: the names of rights and a number,
or the parts of a request that is not about rights.  No token has a comma, so that the tokens
can be read back from a label, and no form of a label imitates another.

## Key results

- `accessTokens_inj`: the tokens of a mask determine it
- `filesystemTokens_inj`, `networkTokens_inj`: so do those of a request
- `labels_lose_nothing`: labels are equal for equal blockers only
-/

namespace Landlock

open Mask

/-! ## Masks -/

namespace AccessMask

variable {K : AccessKind} (mask : AccessMask K)

/-- Every entry of a generated table is a single bit. -/
private theorem single_accessTable {names : List (UInt64 × String)}
    (h : ∀ name ∈ names, name.1 < 64) :
    ∀ entry ∈ accessTable names, IsSingle entry.1 := by
  intro entry hentry
  obtain ⟨name, hname, rfl⟩ := List.mem_map.mp hentry
  exact isSingle_shiftLeft (h name hname)

/-- So is every entry of the table of a kind of rights. -/
private theorem single_table (K : AccessKind) : ∀ entry ∈ K.table, IsSingle entry.1 := by
  cases K <;> exact single_accessTable (by decide)

/-- No table has a bit twice. -/
private theorem nodup_tableBits (K : AccessKind) : (K.table.map Prod.fst).Nodup := by
  cases K <;> decide

/-- No table has a name twice. -/
private theorem nodup_tableNames (K : AccessKind) : (K.table.map Prod.snd).Nodup := by
  cases K <;> decide

/-- A mask is its bits. -/
theorem ext {mask mask' : AccessMask K} (h : mask.bits = mask'.bits) : mask = mask' := by
  cases mask
  cases mask'
  rw [AccessMask.mk.injEq]
  exact h

/-- The named and the unnamed bits make up the mask. -/
private theorem knownBits_or_unknownBits : mask.knownBits ||| mask.unknownBits = mask.bits :=
  and_union _ _

/-- The named bits are the union of the entries. -/
private theorem union_knownEntries : union mask.knownEntries = mask.knownBits :=
  union_present (single_table K)

/-- The names and the unknown bits determine a mask. -/
private theorem eq_of_names {mask mask' : AccessMask K}
    (hnames : mask.knownNames = mask'.knownNames)
    (hunknown : mask.unknownBits = mask'.unknownBits) : mask = mask' := by
  have hentries : mask.knownEntries = mask'.knownEntries :=
    present_eq_of_names (nodup_tableNames K) hnames
  have hknown : mask.knownBits = mask'.knownBits := by
    rw [← union_knownEntries, hentries, union_knownEntries]
  apply AccessMask.ext
  rw [← mask.knownBits_or_unknownBits, hknown, hunknown, mask'.knownBits_or_unknownBits]

end AccessMask

/-! ## Tokens -/

/-- The number of a mask as both front ends write it. -/
def hexToken (bits : UInt64) : String := "0x" ++ lowerHex bits.toNat

/-- Different numbers are written differently. -/
private theorem hexToken_inj {bits bits' : UInt64} (h : hexToken bits = hexToken bits') :
    bits = bits' := by
  have htext := String.append_right_inj _ |>.mp h
  exact UInt64.toNat_inj.mp (Numeral.text_inj (by decide) (by decide) htext)

/-- The tokens that a mask of rights is written with. -/
def accessTokens {K : AccessKind} (mask : AccessMask K) : List String :=
  mask.knownNames ++
    if mask.unknownBits ≠ 0 ∨ mask.knownNames = [] then [hexToken mask.unknownBits] else []

/-- Also the empty mask has a token. -/
private theorem accessTokens_ne_nil {K : AccessKind} (mask : AccessMask K) :
    accessTokens mask ≠ [] := by
  rw [accessTokens]
  split
  · simp
  · rename_i h
    push Not at h
    simp [h.2]

/-- The names of a mask are names of its table. -/
private theorem mem_knownNames {K : AccessKind} {mask : AccessMask K} {name : String}
    (h : name ∈ mask.knownNames) : name ∈ K.table.map Prod.snd := by
  obtain ⟨entry, hentry, rfl⟩ := List.mem_map.mp h
  exact List.mem_map_of_mem (List.mem_filter.mp hentry).1

/-- A token of a mask is a name of the table or a number. -/
private theorem mem_accessTokens {K : AccessKind} {mask : AccessMask K} {token : String}
    (h : token ∈ accessTokens mask) :
    token ∈ K.table.map Prod.snd ∨ ∃ bits, token = hexToken bits := by
  rcases List.mem_append.mp h with hname | hhex
  · exact .inl (mem_knownNames hname)
  · split at hhex
    · exact .inr ⟨_, List.mem_singleton.mp hhex⟩
    · cases hhex

/-- The characters of a name: lower-case letters and underscores. -/
def isNameChar (c : Char) : Bool := c.isLower || c == '_'

/-- Every name of the tables has name characters only. -/
private theorem all_isNameChar (K : AccessKind) :
    ∀ name ∈ K.table.map Prod.snd, name.toList.all isNameChar = true := by
  cases K <;> decide

/-- Other characters are in no name. -/
private theorem notMem_of_mem_table {K : AccessKind} {name : String} {c : Char}
    (h : name ∈ K.table.map Prod.snd) (hc : isNameChar c = false) : c ∉ name.toList := by
  intro hmem
  have hname := List.all_eq_true.mp (all_isNameChar K name h) c hmem
  rw [hc] at hname
  cases hname

/-- Numbers start with a digit, and names do not. -/
def isHexToken (token : String) : Bool := token.toList.head? == some '0'

/-- A number starts with its `0x`. -/
private theorem isHexToken_hexToken (bits : UInt64) : isHexToken (hexToken bits) = true := by
  simp [isHexToken, hexToken]

/-- A name is not taken for a number. -/
private theorem isHexToken_knownNames {K : AccessKind} {mask : AccessMask K} {name : String}
    (h : name ∈ mask.knownNames) : isHexToken name = false := by
  have hdigit : '0' ∉ name.toList := notMem_of_mem_table (mem_knownNames h) (by decide)
  rw [isHexToken, beq_eq_false_iff_ne]
  exact fun hhead => hdigit (List.mem_of_head? hhead)

/-- The numbers among the tokens of a mask are its unknown bits. -/
private theorem filter_hex_accessTokens {K : AccessKind} (mask : AccessMask K) :
    (accessTokens mask).filter isHexToken =
      if mask.unknownBits ≠ 0 ∨ mask.knownNames = [] then [hexToken mask.unknownBits] else [] := by
  have hnames : mask.knownNames.filter isHexToken = [] :=
    List.filter_eq_nil_iff.mpr fun name hname => by simp [isHexToken_knownNames hname]
  rw [accessTokens, List.filter_append, hnames, List.nil_append]
  split <;> simp [isHexToken_hexToken]

/-- The other tokens are its names. -/
private theorem filter_names_accessTokens {K : AccessKind} (mask : AccessMask K) :
    ((accessTokens mask).filter fun token => !isHexToken token) = mask.knownNames := by
  have hnames : (mask.knownNames.filter fun token => !isHexToken token) = mask.knownNames :=
    List.filter_eq_self.mpr fun name hname => by simp [isHexToken_knownNames hname]
  rw [accessTokens, List.filter_append, hnames]
  split <;> simp [isHexToken_hexToken]

/-- The tokens of a mask determine it. -/
theorem accessTokens_inj {K : AccessKind} {mask mask' : AccessMask K}
    (h : accessTokens mask = accessTokens mask') : mask = mask' := by
  have hnames : mask.knownNames = mask'.knownNames := by
    rw [← filter_names_accessTokens, h, filter_names_accessTokens]
  have hhex := congrArg (List.filter isHexToken) h
  rw [filter_hex_accessTokens, filter_hex_accessTokens, hnames] at hhex
  refine AccessMask.eq_of_names hnames ?_
  -- Without a name the number is written, also when it is zero
  by_cases hnil : mask'.knownNames = []
  · exact hexToken_inj (by simpa [hnil] using hhex)
  · -- a number that is left out is zero
    by_cases hzero : mask.unknownBits = 0 <;> by_cases hzero' : mask'.unknownBits = 0
    · rw [hzero, hzero']
    · simp [hzero, hzero', hnil] at hhex
    · simp [hzero, hzero', hnil] at hhex
    · exact hexToken_inj (by simpa [hzero, hzero'] using hhex)

/-- The tokens of a request that is not about rights. -/
def requestTokens (requestType : BlockerType) (bits : UInt64) : List String :=
  ["request_type=0x" ++ lowerHex requestType.raw.toNat, "access=0x" ++ lowerHex bits.toNat]

def filesystemTokens : FilesystemBlockers → List String
  | .access access => accessTokens access
  | .changeTopology => ["change_topology"]
  | .other requestType access =>
    if requestType = .fsChangeTopology then
      ["change_topology", "access=0x" ++ lowerHex access.bits.toNat]
    else requestTokens requestType access.bits

def networkTokens (blockersType : BlockerType) (access : NetworkAccess) : List String :=
  if blockersType = .netAccess then accessTokens access
  else requestTokens blockersType access.bits

/-! ## Forms do not imitate each other -/

/-- What tells the tokens of a request from those of a mask. -/
private theorem equals_notMem_accessTokens {K : AccessKind} {mask : AccessMask K} {token : String}
    (h : token ∈ accessTokens mask) : '=' ∉ token.toList := by
  rcases mem_accessTokens h with hname | ⟨bits, rfl⟩
  · exact notMem_of_mem_table hname (by decide)
  · rw [hexToken, String.toList_append, List.mem_append, not_or]
    exact ⟨by decide, Numeral.notMem_text (by decide) (by decide) (by decide)⟩

/-- Tokens with an `access=` part are not those of a mask. -/
private theorem accessTokens_ne_of_mem {K : AccessKind} {mask : AccessMask K} {tokens : List String}
    {bits : UInt64} (h : "access=0x" ++ lowerHex bits.toNat ∈ tokens) :
    accessTokens mask ≠ tokens := by
  intro heq
  exact equals_notMem_accessTokens (heq ▸ h) (by simp)

/-- `change_topology` is not the name of a right. -/
private theorem accessTokens_ne_changeTopology {mask : FilesystemAccess} :
    accessTokens mask ≠ ["change_topology"] := by
  intro heq
  rcases mem_accessTokens (heq ▸ List.mem_singleton_self _) with hname | ⟨bits, hbits⟩
  · revert hname
    decide
  · have hhead := congrArg (fun text => text.toList.head?) hbits
    simp [hexToken] at hhead

/-- The rights can be read back from an `access=` part. -/
private theorem accessToken_inj {bits bits' : UInt64}
    (h : "access=0x" ++ lowerHex bits.toNat = "access=0x" ++ lowerHex bits'.toNat) :
    bits = bits' :=
  UInt64.toNat_inj.mp
    (Numeral.text_inj (by decide) (by decide) (String.append_right_inj _ |>.mp h))

/-- The request type and the rights can be read back from a request. -/
private theorem requestTokens_inj {type type' : BlockerType} {bits bits' : UInt64}
    (h : requestTokens type bits = requestTokens type' bits') : type = type' ∧ bits = bits' := by
  obtain ⟨htype, haccess, -⟩ := by simpa only [requestTokens, List.cons.injEq] using h
  have hraw := Numeral.text_inj (by decide) (by decide) (String.append_right_inj _ |>.mp htype)
  cases type
  cases type'
  rw [BlockerType.mk.injEq]
  exact ⟨UInt32.toNat_inj.mp hraw, accessToken_inj haccess⟩

/-- A request starts with its type, and not with `change_topology`. -/
private theorem requestTokens_ne_changeTopology {type : BlockerType} {bits : UInt64}
    {tokens : List String} : requestTokens type bits ≠ "change_topology" :: tokens := by
  intro h
  have hhead := congrArg (fun text => text.toList.head?) (List.cons.inj h).1
  simp at hhead

/-- A request has an `access=` part. -/
private theorem mem_requestTokens (type : BlockerType) (bits : UInt64) :
    "access=0x" ++ lowerHex bits.toNat ∈ requestTokens type bits := by
  simp [requestTokens]

/-- So has every filesystem request that is not about rights alone. -/
private theorem mem_filesystemTokens_other (type : BlockerType) (mask : FilesystemAccess) :
    "access=0x" ++ lowerHex mask.bits.toNat ∈ filesystemTokens (.other type mask) := by
  rw [filesystemTokens]
  split
  · simp
  · exact mem_requestTokens type mask.bits

/-- Such a request has two parts. -/
private theorem length_filesystemTokens_other (type : BlockerType) (mask : FilesystemAccess) :
    (filesystemTokens (.other type mask)).length = 2 := by
  rw [filesystemTokens]
  split <;> rfl

/-- The type and the rights of such a request can be read back. -/
private theorem filesystemTokens_other_inj {type type' : BlockerType}
    {mask mask' : FilesystemAccess}
    (h : filesystemTokens (.other type mask) = filesystemTokens (.other type' mask')) :
    type = type' ∧ mask = mask' := by
  -- Four cases: each of the two requests is a change of the topology, or is not
  rw [filesystemTokens, filesystemTokens] at h
  split at h
  · rename_i htype
    split at h
    · rename_i htype'
      have haccess := accessToken_inj (List.cons.inj (List.cons.inj h).2).1
      exact ⟨htype.trans htype'.symm, AccessMask.ext haccess⟩
    · exact absurd h.symm requestTokens_ne_changeTopology
  · split at h
    · exact absurd h requestTokens_ne_changeTopology
    · obtain ⟨htype, hbits⟩ := requestTokens_inj h
      exact ⟨htype, AccessMask.ext hbits⟩

/-- The tokens of a filesystem request determine it. -/
theorem filesystemTokens_inj {blockers blockers' : FilesystemBlockers}
    (h : filesystemTokens blockers = filesystemTokens blockers') : blockers = blockers' := by
  -- The three forms are told apart by an `access=` part and by the number of tokens
  cases blockers with
  | access mask =>
    cases blockers' with
    | access mask' => rw [accessTokens_inj h]
    | changeTopology => exact absurd h accessTokens_ne_changeTopology
    | other type' mask' =>
      exact absurd h (accessTokens_ne_of_mem (mem_filesystemTokens_other type' mask'))
  | changeTopology =>
    cases blockers' with
    | access mask' => exact absurd h.symm accessTokens_ne_changeTopology
    | changeTopology => rfl
    | other type' mask' =>
      have hlength := congrArg List.length h
      rw [length_filesystemTokens_other] at hlength
      cases hlength
  | other type mask =>
    cases blockers' with
    | access mask' =>
      exact absurd h.symm (accessTokens_ne_of_mem (mem_filesystemTokens_other type mask))
    | changeTopology =>
      have hlength := congrArg List.length h
      rw [length_filesystemTokens_other] at hlength
      cases hlength
    | other type' mask' =>
      obtain ⟨rfl, rfl⟩ := filesystemTokens_other_inj h
      rfl

/-- The tokens of a network request determine its type and its rights. -/
theorem networkTokens_inj {type type' : BlockerType} {mask mask' : NetworkAccess}
    (h : networkTokens type mask = networkTokens type' mask') : type = type' ∧ mask = mask' := by
  -- Only a request that is not about rights has an `access=` part
  rw [networkTokens, networkTokens] at h
  split at h
  · rename_i htype
    split at h
    · rename_i htype'
      exact ⟨htype.trans htype'.symm, accessTokens_inj h⟩
    · exact absurd h (accessTokens_ne_of_mem (mem_requestTokens type' mask'.bits))
  · split at h
    · exact absurd h.symm (accessTokens_ne_of_mem (mem_requestTokens type mask.bits))
    · obtain ⟨htype, hbits⟩ := requestTokens_inj h
      exact ⟨htype, AccessMask.ext hbits⟩

/-- The request type and the rights can be read back from the reason. -/
private theorem classify_inj {type type' : BlockerType} {mask mask' : FilesystemAccess}
    (h : FilesystemBlockers.classify type mask = .classify type' mask') :
    type = type' ∧ mask = mask' := by
  have hraw : ∀ {t t' : BlockerType}, t.raw = t'.raw → t = t' := by
    intro t t' ht
    cases t
    cases t'
    rw [BlockerType.mk.injEq]
    exact ht
  -- The three results of `classify` are different constructors
  unfold FilesystemBlockers.classify at h
  split at h
  · rename_i htype
    split at h
    · rename_i htype'
      exact ⟨hraw (htype.trans htype'.symm), FilesystemBlockers.access.inj h⟩
    · split at h <;> cases h
  · split at h
    · rename_i htype
      split at h
      · cases h
      · split at h
        · rename_i htype'
          exact ⟨hraw (htype.1.trans htype'.1.symm),
            AccessMask.ext (htype.2.trans htype'.2.symm)⟩
        · cases h
    · split at h
      · cases h
      · split at h
        · cases h
        · exact FilesystemBlockers.other.inj h

/-! ## Labels are joined tokens -/

/-- A number adds no comma to the text before it. -/
private theorem comma_notMem_hex (text : String) (n : Nat) (h : ',' ∉ text.toList) :
    ',' ∉ (text ++ lowerHex n).toList := by
  rw [String.toList_append, List.mem_append, not_or]
  exact ⟨h, Numeral.notMem_text (by decide) (by decide) (by decide)⟩

/-- No token of a mask has a comma. -/
private theorem comma_notMem_accessTokens {K : AccessKind} (mask : AccessMask K) :
    ∀ token ∈ accessTokens mask, ',' ∉ token.toList := by
  intro token htoken
  rcases mem_accessTokens htoken with hname | ⟨bits, rfl⟩
  · exact notMem_of_mem_table hname (by decide)
  · exact comma_notMem_hex _ _ (by decide)

/-- No token of a request has one. -/
private theorem comma_notMem_requestTokens (type : BlockerType) (bits : UInt64) :
    ∀ token ∈ requestTokens type bits, ',' ∉ token.toList := by
  intro token htoken
  rw [requestTokens, List.mem_cons, List.mem_singleton] at htoken
  rcases htoken with rfl | rfl
  · exact comma_notMem_hex _ _ (by decide)
  · exact comma_notMem_hex _ _ (by decide)

/-- No token of a filesystem request has one. -/
private theorem comma_notMem_filesystemTokens (blockers : FilesystemBlockers) :
    ∀ token ∈ filesystemTokens blockers, ',' ∉ token.toList := by
  cases blockers with
  | access mask => exact comma_notMem_accessTokens mask
  | changeTopology => decide
  | other type mask =>
    rw [filesystemTokens]
    split
    · intro token htoken
      rw [List.mem_cons, List.mem_singleton] at htoken
      rcases htoken with rfl | rfl
      · decide
      · exact comma_notMem_hex _ _ (by decide)
    · exact comma_notMem_requestTokens type mask.bits

/-- No token of a network request has one. -/
private theorem comma_notMem_networkTokens (type : BlockerType) (mask : NetworkAccess) :
    ∀ token ∈ networkTokens type mask, ',' ∉ token.toList := by
  rw [networkTokens]
  split
  · exact comma_notMem_accessTokens mask
  · exact comma_notMem_requestTokens type mask.bits

/-- A filesystem request has a token. -/
private theorem filesystemTokens_ne_nil (blockers : FilesystemBlockers) :
    filesystemTokens blockers ≠ [] := by
  cases blockers with
  | access mask => exact accessTokens_ne_nil mask
  | changeTopology => exact List.cons_ne_nil _ _
  | other type mask =>
    intro h
    have hlength := length_filesystemTokens_other type mask
    rw [h] at hlength
    cases hlength

/-- A network request has a token. -/
private theorem networkTokens_ne_nil (type : BlockerType) (mask : NetworkAccess) :
    networkTokens type mask ≠ [] := by
  rw [networkTokens]
  split
  · exact accessTokens_ne_nil mask
  · exact List.cons_ne_nil _ _

/-- The interactive mode writes the rights of a mask as its tokens, joined. -/
private theorem rights_eq {K : AccessKind} (mask : AccessMask K) :
    Tui.Format.rights mask = ", ".intercalate (accessTokens mask) := by
  rw [Tui.Format.rights, Tui.Format.access, accessTokens]
  by_cases hnames : mask.knownNames = [] <;> by_cases hzero : mask.unknownBits = 0
  · rw [hnames, hzero]
    rfl
  all_goals simp [hnames, hzero, hexToken]

/-- The label of a filesystem request in the interactive mode. -/
private theorem filesystemBlocker_eq (blockers : FilesystemBlockers) :
    Tui.Format.filesystemBlocker blockers =
      "FS: " ++ ", ".intercalate (filesystemTokens blockers) := by
  cases blockers with
  | access mask =>
    rw [Tui.Format.filesystemBlocker, Tui.Format.filesystem, Tui.Format.filesystemRights, rights_eq]
    rfl
  | changeTopology => rfl
  | other type mask =>
    rw [Tui.Format.filesystemBlocker, filesystemTokens]
    split
    · rw [String.intercalate_cons_cons, String.intercalate_singleton]
      -- The literal texts of the source hold the start and the separators
      simp only [← String.append_assoc]
      rfl
    · rw [requestTokens, String.intercalate_cons_cons, String.intercalate_singleton,
        show "FS: request_type=0x" = "FS: " ++ "request_type=0x" from rfl,
        show ", access=0x" = ", " ++ "access=0x" from rfl]
      simp only [String.append_assoc]

/-- The label of a network request in the interactive mode. -/
private theorem networkBlocker_eq (type : BlockerType) (mask : NetworkAccess) :
    Tui.Format.networkBlocker type mask =
      "Net: " ++ ", ".intercalate (networkTokens type mask) := by
  rw [Tui.Format.networkBlocker, networkTokens]
  split
  · rw [Tui.Format.network, Tui.Format.networkRights, rights_eq]
  · rw [requestTokens, String.intercalate_cons_cons, String.intercalate_singleton,
      show "Net: request_type=0x" = "Net: " ++ "request_type=0x" from rfl,
      show ", access=0x" = ", " ++ "access=0x" from rfl]
    simp only [String.append_assoc]

/-- A label of the batch mode: an empty mask has no start. -/
def batchLabel (start : String) (tokens : List String) : String :=
  if tokens = ["0x0"] then "0x0" else start ++ ":" ++ ",".intercalate tokens

/-- The batch mode writes the rights of a mask as its tokens, after the family. -/
private theorem accessBlockers_eq (start : String) {K : AccessKind} (mask : AccessMask K) :
    accessBlockers start mask.knownNames mask.unknownBits =
      batchLabel start (accessTokens mask) := by
  -- The empty mask is the one whose label has no start
  have hempty : accessTokens (⟨0⟩ : AccessMask K) = ["0x0"] := by cases K <;> decide
  rw [accessBlockers, batchLabel]
  by_cases hmask : mask = ⟨0⟩
  · have hnames : (⟨0⟩ : AccessMask K).knownNames = [] := by cases K <;> decide
    have hunknown : (⟨0⟩ : AccessMask K).unknownBits = 0 := by cases K <;> decide
    rw [hmask, if_pos hempty, hnames, hunknown]
    rfl
  · have hne : accessTokens mask ≠ ["0x0"] := fun h =>
      hmask (accessTokens_inj (h.trans hempty.symm))
    rw [if_neg hne]
    by_cases hnames : mask.knownNames = [] <;> by_cases hzero : mask.unknownBits = 0
    · -- an empty list of tokens belongs to the empty mask
      refine absurd ?_ hne
      rw [accessTokens, hnames, hzero]
      rfl
    all_goals simp [hnames, hzero, accessTokens, hexToken]

/-- The label of a filesystem request in the batch mode. -/
private theorem filesystemBlockers_eq (blockers : FilesystemBlockers) :
    filesystemBlockers blockers = batchLabel "FS" (filesystemTokens blockers) := by
  cases blockers with
  | access mask => exact accessBlockers_eq "FS" mask
  | changeTopology => decide
  | other type mask =>
    -- Two parts are not the one number of the empty mask
    have hne : filesystemTokens (.other type mask) ≠ ["0x0"] := by
      intro h
      have hlength := length_filesystemTokens_other type mask
      rw [h] at hlength
      cases hlength
    rw [batchLabel, if_neg hne, filesystemBlockers, filesystemTokens]
    split
    · rw [String.intercalate_cons_cons, String.intercalate_singleton]
      simp only [← String.append_assoc]
      rfl
    · rw [requestTokens, String.intercalate_cons_cons, String.intercalate_singleton,
        show "FS:request_type=0x" = "FS" ++ ":" ++ "request_type=0x" from rfl,
        show ",access=0x" = "," ++ "access=0x" from rfl]
      simp only [String.append_assoc]

/-- The label of a network request in the batch mode. -/
private theorem networkBlockers_eq (type : BlockerType) (mask : NetworkAccess) :
    networkBlockers type mask = batchLabel "Net" (networkTokens type mask) := by
  rw [networkBlockers, networkTokens]
  split
  · exact accessBlockers_eq "Net" mask
  · rw [batchLabel, if_neg (by simp [requestTokens]), requestTokens,
      String.intercalate_cons_cons, String.intercalate_singleton,
      show "Net:request_type=0x" = "Net" ++ ":" ++ "request_type=0x" from rfl,
      show ",access=0x" = "," ++ "access=0x" from rfl]
    simp only [String.append_assoc]

/-! ## Labels can be read back -/

section Joined

variable {start : String} {tokens tokens' : List String} (hne : tokens ≠ []) (hne' : tokens' ≠ [])
  (h : ∀ token ∈ tokens, ',' ∉ token.toList) (h' : ∀ token ∈ tokens', ',' ∉ token.toList)
include hne hne' h h'

/-- Labels of the interactive mode with one start have the same tokens. -/
private theorem tuiLabel_inj
    (heq : start ++ ", ".intercalate tokens = start ++ ", ".intercalate tokens') :
    tokens = tokens' :=
  Line.intercalate_inj rfl hne hne' h h' (String.append_right_inj _ |>.mp heq)

/-- So have those of the batch mode, when the start is not taken for a number. -/
private theorem batchLabel_inj (hstart : start.toList.head? ≠ some '0') (hstart' : start ≠ "")
    (heq : batchLabel start tokens = batchLabel start tokens') : tokens = tokens' := by
  -- The label of the empty mask starts as no other does
  have hlabel : ∀ ts : List String, "0x0" ≠ start ++ ":" ++ ",".intercalate ts := by
    intro ts htext
    have hhead := congrArg (fun text => text.toList.head?) htext
    cases hlist : start.toList with
    | nil => exact hstart' (String.toList_inj.mp (by rw [hlist]; rfl))
    | cons c cs =>
      rw [hlist] at hstart
      simp [hlist] at hhead hstart
      exact hstart hhead.symm
  rw [batchLabel, batchLabel] at heq
  split at heq
  · rename_i htokens
    split at heq
    · rename_i htokens'
      exact htokens.trans htokens'.symm
    · exact absurd heq (hlabel _)
  · split at heq
    · exact absurd heq.symm (hlabel _)
    · exact Line.intercalate_inj rfl hne hne' h h' (String.append_right_inj _ |>.mp heq)

end Joined

/-! ## Denials -/

/-- The request type and the rights that a filesystem or network denial was about. -/
def Event.blockerFacts : Event → Option (BlockerType × UInt64)
  | .denyAccessFs event => some (event.blockersType, event.blockersAccess.bits)
  | .denyAccessNet event => some (event.blockersType, event.blockersAccess.bits)
  | _ => none

/-- The family that a label of the interactive mode is about. -/
def labelKind (label : String) : Option DenialKind :=
  match label.toList.head? with
  | some 'F' => some .fs
  | some 'N' => some .net
  | some 'p' => some .ptrace
  | some 'S' => if label = "Scope: signal" then some .signal else some .abstractUnix
  | _ => none

/-- The family can be read off the label of a denial. -/
private theorem labelKind_blockersEvent {event : Event} {kind : DenialKind}
    (h : DenialKind.fromEvent event = some kind) :
    labelKind (Tui.blockersEvent event) = some kind := by
  rw [← h]
  cases event with
  | denyAccessFs event =>
    rw [Tui.blockersEvent, filesystemBlocker_eq, labelKind, String.toList_append]
    rfl
  | denyAccessNet event =>
    rw [Tui.blockersEvent, networkBlocker_eq, labelKind, String.toList_append]
    rfl
  | denyPtrace _ => exact (by decide : labelKind "ptrace" = some .ptrace)
  | denyScopeSignal _ =>
    exact (by decide : labelKind (Tui.Format.scope ⟨(1 : UInt64) <<< 1⟩) = some .signal)
  | denyScopeAbstractUnixSocket _ =>
    exact (by decide : labelKind (Tui.Format.scope ⟨(1 : UInt64) <<< 0⟩) = some .abstractUnix)
  | _ => cases h

/-- The tokens of a filesystem or network denial. -/
def Event.blockerTokens : Event → List String
  | .denyAccessFs event => filesystemTokens event.blockers
  | .denyAccessNet event => networkTokens event.blockersType event.blockersAccess
  | _ => []

section Family

variable {event event' : Event} {kind : DenialKind} (h : DenialKind.fromEvent event = some kind)
  (h' : DenialKind.fromEvent event' = some kind)
include h h'

/-- Two denials of one family have the same tokens exactly when the same blocked them. -/
private theorem blockerTokens_eq_iff :
    event.blockerTokens = event'.blockerTokens ↔ event.blockerFacts = event'.blockerFacts := by
  -- The two hypotheses leave one constructor of `Event` for each family
  cases kind with
  | fs =>
    cases event <;> cases h
    cases event' <;> cases h'
    rename_i event event'
    rw [Event.blockerFacts, Event.blockerFacts, Option.some_inj, Prod.mk.injEq]
    constructor
    · intro htokens
      obtain ⟨htype, haccess⟩ := classify_inj (filesystemTokens_inj htokens)
      exact ⟨htype, by rw [haccess]⟩
    · rintro ⟨htype, hbits⟩
      rw [Event.blockerTokens, Event.blockerTokens, DenyAccessFsEvent.blockers,
        DenyAccessFsEvent.blockers, htype, AccessMask.ext hbits]
  | net =>
    cases event <;> cases h
    cases event' <;> cases h'
    rename_i event event'
    rw [Event.blockerFacts, Event.blockerFacts, Option.some_inj, Prod.mk.injEq]
    constructor
    · intro htokens
      obtain ⟨htype, haccess⟩ := networkTokens_inj htokens
      exact ⟨htype, by rw [haccess]⟩
    · rintro ⟨htype, hbits⟩
      rw [Event.blockerTokens, Event.blockerTokens, htype, AccessMask.ext hbits]
  | _ =>
    cases event <;> cases h
    cases event' <;> cases h'
    exact iff_of_true rfl rfl

/-- The labels of the interactive mode tell the same denials apart as the tokens. -/
private theorem blockersEvent_eq_iff_tokens :
    Tui.blockersEvent event = Tui.blockersEvent event' ↔
      event.blockerTokens = event'.blockerTokens := by
  cases kind with
  | fs =>
    cases event <;> cases h
    cases event' <;> cases h'
    rw [Tui.blockersEvent, Tui.blockersEvent, filesystemBlocker_eq, filesystemBlocker_eq]
    constructor
    · exact tuiLabel_inj (filesystemTokens_ne_nil _) (filesystemTokens_ne_nil _)
        (comma_notMem_filesystemTokens _) (comma_notMem_filesystemTokens _)
    · exact congrArg fun tokens => "FS: " ++ ", ".intercalate tokens
  | net =>
    cases event <;> cases h
    cases event' <;> cases h'
    rw [Tui.blockersEvent, Tui.blockersEvent, networkBlocker_eq, networkBlocker_eq]
    constructor
    · exact tuiLabel_inj (networkTokens_ne_nil _ _) (networkTokens_ne_nil _ _)
        (comma_notMem_networkTokens _ _) (comma_notMem_networkTokens _ _)
    · exact congrArg fun tokens => "Net: " ++ ", ".intercalate tokens
  -- The other families have a constant label and no tokens
  | _ =>
    cases event <;> cases h
    cases event' <;> cases h'
    exact iff_of_true rfl rfl

/-- So do the labels of the batch mode. -/
private theorem batchBlockers_eq_iff_tokens :
    (denialFields event).map DenialFields.blockers =
        (denialFields event').map DenialFields.blockers ↔
      event.blockerTokens = event'.blockerTokens := by
  cases kind with
  | fs =>
    cases event <;> cases h
    cases event' <;> cases h'
    rw [denialFields, denialFields, Option.map_some, Option.map_some, Option.some_inj,
      filesystemBlockers_eq, filesystemBlockers_eq]
    constructor
    · exact batchLabel_inj (filesystemTokens_ne_nil _) (filesystemTokens_ne_nil _)
        (comma_notMem_filesystemTokens _) (comma_notMem_filesystemTokens _) (by decide)
        (by decide)
    · exact congrArg (batchLabel "FS")
  | net =>
    cases event <;> cases h
    cases event' <;> cases h'
    rw [denialFields, denialFields, Option.map_some, Option.map_some, Option.some_inj,
      networkBlockers_eq, networkBlockers_eq]
    constructor
    · exact batchLabel_inj (networkTokens_ne_nil _ _) (networkTokens_ne_nil _ _)
        (comma_notMem_networkTokens _ _) (comma_notMem_networkTokens _ _) (by decide) (by decide)
    · exact congrArg (batchLabel "Net")
  -- The other families have a constant label and no tokens
  | _ =>
    cases event <;> cases h
    cases event' <;> cases h'
    exact iff_of_true rfl rfl

end Family

/-- The label of a denial determines its family and what blocked it. -/
private theorem blockersEvent_eq_iff {event event' : Event} {kind kind' : DenialKind}
    (h : DenialKind.fromEvent event = some kind)
    (h' : DenialKind.fromEvent event' = some kind') :
    Tui.blockersEvent event = Tui.blockersEvent event' ↔
      kind = kind' ∧ event.blockerFacts = event'.blockerFacts := by
  constructor
  · intro heq
    have hkind : some kind = some kind' := by
      rw [← labelKind_blockersEvent h, heq, labelKind_blockersEvent h']
    obtain rfl := Option.some.inj hkind
    exact ⟨rfl, (blockerTokens_eq_iff h h').mp ((blockersEvent_eq_iff_tokens h h').mp heq)⟩
  · rintro ⟨rfl, hfacts⟩
    exact (blockersEvent_eq_iff_tokens h h').mpr ((blockerTokens_eq_iff h h').mpr hfacts)

/-- Every mask is made of the bits of its names and of unknown bits, and so labels are equal
    for denials of one family with equal blockers only.  In one family the labels of the batch
    mode tell the same apart. -/
theorem labels_lose_nothing {event event' : Event} {kind kind' : DenialKind}
    (h : DenialKind.fromEvent event = some kind)
    (h' : DenialKind.fromEvent event' = some kind') :
    (∀ (K : AccessKind) (mask : AccessMask K),
      mask.knownBits &&& mask.unknownBits = 0 ∧
      mask.knownBits ||| mask.unknownBits = mask.bits ∧
      (mask.knownEntries.map Prod.fst).Nodup ∧
      (∀ entry ∈ mask.knownEntries, ∃ k < 64, entry.1.toNat = 2 ^ k) ∧
      mask.knownEntries.foldl (fun bits entry => bits ||| entry.1) 0 = mask.knownBits) ∧
    (Tui.blockersEvent event = Tui.blockersEvent event' ↔
      kind = kind' ∧ event.blockerFacts = event'.blockerFacts) ∧
    (kind = kind' →
      ((denialFields event).map DenialFields.blockers =
        (denialFields event').map DenialFields.blockers ↔
          event.blockerFacts = event'.blockerFacts)) := by
  refine ⟨?_, blockersEvent_eq_iff h h', ?_⟩
  · intro K mask
    have hsublist : mask.knownEntries.Sublist K.table := List.filter_sublist
    exact ⟨and_disjoint _ _, mask.knownBits_or_unknownBits,
      (AccessMask.nodup_tableBits K).sublist (hsublist.map _),
      fun entry hentry => AccessMask.single_table K entry (hsublist.subset hentry),
      mask.union_knownEntries⟩
  · rintro rfl
    exact (batchBlockers_eq_iff_tokens h h').trans (blockerTokens_eq_iff h h')

/-- A filesystem denial with the given blockers. -/
def filesystemDenial (type : BlockerType) (access : FilesystemAccess) : Event :=
  .denyAccessFs ⟨⟨0⟩, default, type, access, 0, 0, default⟩

/-- A change of the topology with a right is told from one without. -/
theorem labels_lose_nothing_topology :
    (Tui.blockersEvent (filesystemDenial .fsChangeTopology ⟨0⟩) =
        Tui.blockersEvent (filesystemDenial .fsChangeTopology ⟨4⟩) ↔
      DenialKind.fs = .fs ∧ (filesystemDenial .fsChangeTopology ⟨0⟩).blockerFacts =
        (filesystemDenial .fsChangeTopology ⟨4⟩).blockerFacts) ∧
    Tui.blockersEvent (filesystemDenial .fsChangeTopology ⟨4⟩) =
      "FS: change_topology, access=0x4" :=
  ⟨(labels_lose_nothing rfl rfl).2.1, by decide⟩

end Landlock
