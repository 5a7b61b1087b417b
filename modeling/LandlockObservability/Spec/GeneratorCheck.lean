import LandlockObservability.ForStd.Mask
import LandlockObservability.Model.AccessNames
import LandlockObservability.Spec.Generator

/-!
# The check of the committed tables

`generate-access-names.py --check` compares texts.  The text of tables determines the tables
(`render_inj`), so the comparison is one of tables; and tables are determined by the names that
they give to masks.  Hence the check of the committed tables passes exactly when the headers are
accepted and `known_names` gives each mask the names that the headers give to its bits.

## Key results

- `Emitted.mem_iff`: what an entry of an accepted table says about the headers
- `check_passes_iff`: when the check of the committed tables passes
-/

namespace Landlock.Generator

/-! ## What accepted headers say -/

section

variable (py : Python) (uapi internal : List String)

/-- The headers give the bit with number `shift` a name. -/
def NamesBit (kind : AccessKind) (shift : Nat) (name : String) : Prop :=
  ∃ define ∈ constantsOf py kind uapi, shiftOf py define.2 = some shift ∧
    ∃ body ∈ listsOf py kind internal, (define.1, name) ∈ py.findEntries body

end

/-- A table has the named bits and no others. -/
theorem Emitted.mem_iff {py : Python} {uapi internal : List String} {kind : AccessKind}
    {body : String} {table : Table} (h : Emitted py uapi internal kind body table)
    (shift : Nat) (name : String) :
    (shift, name) ∈ table ↔ NamesBit py uapi internal kind shift name := by
  have hmem : (shift, name) ∈ table ↔
      (some shift, some name) ∈ table.map fun entry => (some entry.1, some entry.2) := by
    simp
  -- The table is the defines in another order, each with the name of its constant
  rw [hmem, h.entries.mem_iff, List.mem_map, NamesBit, h.list]
  refine exists_congr fun define => and_congr_right fun _ => ?_
  simp [Items.lookup_eq_some_iff h.entries_nodup]

/-! ## The committed tables -/

/-- The tables of `access_names.rs`, with the numbers of the bits. -/
def committedTables (kind : AccessKind) : Table :=
  kind.table.map fun entry => (entry.1.toNat.log2, entry.2)

example : committedTables .scope = [(0, "abstract_unix_socket"), (1, "signal")] := by
  decide +kernel

/-- Every committed entry is a single bit. -/
private theorem toNat_eq_of_mem_table {kind : AccessKind} {entry : UInt64 × String}
    (h : entry ∈ kind.table) : entry.1.toNat = 2 ^ entry.1.toNat.log2 := by
  have hall : ∀ entry ∈ kind.table, entry.1.toNat = 2 ^ entry.1.toNat.log2 := by
    cases kind <;> decide +kernel
  exact hall entry h

/-- The committed names are names. -/
private theorem named_committedTables : Named committedTables := by
  intro kind
  cases kind <;> decide +kernel

/-- The committed entries ascend. -/
private theorem pairwise_committedTables (kind : AccessKind) :
    (committedTables kind).Pairwise fun entry entry' => entry.1 < entry'.1 := by
  cases kind <;> decide +kernel

/-- The committed bits are below 64. -/
private theorem shift_lt_committedTables {kind : AccessKind} {entry : Nat × String}
    (h : entry ∈ committedTables kind) : entry.1 < 64 := by
  have hall : ∀ entry ∈ committedTables kind, entry.1 < 64 := by
    cases kind <;> decide +kernel
  exact hall entry h

/-- `known_names` reads the committed tables. -/
private theorem mem_knownNames_iff {kind : AccessKind} (mask : AccessMask kind) (name : String) :
    name ∈ mask.knownNames ↔
      ∃ shift, Mask.bit mask.bits shift = true ∧ (shift, name) ∈ committedTables kind := by
  simp only [AccessMask.knownNames, AccessMask.knownEntries, committedTables, List.mem_map,
    List.mem_filter, bne_iff_ne]
  constructor
  · rintro ⟨entry, ⟨hentry, hbit⟩, rfl⟩
    exact ⟨_, (Mask.and_ne_zero_iff (toNat_eq_of_mem_table hentry)).mp hbit, entry, hentry, rfl⟩
  · rintro ⟨shift, hbit, entry, hentry, heq⟩
    cases heq
    exact ⟨entry, ⟨hentry, (Mask.and_ne_zero_iff (toNat_eq_of_mem_table hentry)).mpr hbit⟩, rfl⟩

/-- A table with ascending shifts is determined by the names that it gives to masks. -/
private theorem table_eq_of_names {table table' : Table}
    (hlt : ∀ entry ∈ table, entry.1 < 64) (hlt' : ∀ entry ∈ table', entry.1 < 64)
    (hascending : table.Pairwise fun entry entry' => entry.1 < entry'.1)
    (hascending' : table'.Pairwise fun entry entry' => entry.1 < entry'.1)
    (h : ∀ (bits : UInt64) (name : String),
      (∃ shift, Mask.bit bits shift = true ∧ (shift, name) ∈ table) ↔
        ∃ shift, Mask.bit bits shift = true ∧ (shift, name) ∈ table') : table = table' := by
  -- The mask of a single bit shows the entry of that bit
  have hsingle : ∀ shift < 64, ∀ name, (shift, name) ∈ table ↔ (shift, name) ∈ table' := by
    intro shift hshift name
    have hbit : ∀ i, Mask.bit (UInt64.ofNat (2 ^ shift)) i = true ↔ shift = i := by
      intro i
      have hpow : 2 ^ shift < 2 ^ 64 := Nat.pow_lt_pow_right (by decide) hshift
      rw [Mask.bit_of_toNat_eq (UInt64.toNat_ofNat_of_lt' hpow), decide_eq_true_eq]
    simpa [hbit] using h (UInt64.ofNat (2 ^ shift)) name
  have hmem : ∀ entry, entry ∈ table ↔ entry ∈ table' := by
    intro entry
    constructor
    · exact fun hentry => (hsingle _ (hlt entry hentry) _).mp hentry
    · exact fun hentry => (hsingle _ (hlt' entry hentry) _).mpr hentry
  have hnodup : ∀ {t : Table}, (t.Pairwise fun entry entry' => entry.1 < entry'.1) → t.Nodup :=
    fun ht => ht.imp fun hentry heq => Nat.ne_of_lt hentry (congrArg Prod.fst heq)
  refine List.Perm.eq_of_pairwise ?_ hascending hascending'
    ((List.perm_ext_iff_of_nodup (hnodup hascending) (hnodup hascending')).mpr hmem)
  intro entry entry' _ _ hle hge
  exact absurd hge (Nat.lt_asymm hle)

/-! ## The check -/

/-- With both headers read, the generator starts. -/
private theorem generateFrom_ok (py : Python) (preamble uapi internal : String) :
    generateFrom py preamble (.ok uapi) (.ok internal) =
      (generate py uapi internal).map (preamble ++ ·) := by
  simp only [generateFrom, generate, Except.ok_bind]
  cases parseUapi py uapi with
  | error message => rfl
  | ok constants =>
    rw [Except.ok_bind, Except.ok_bind]
    cases parseLists py internal constants <;> rfl

/-- A comparison with a text passes when it is the text that is generated. -/
private theorem main_eq_unchanged_iff (py : Python) (preamble uapi internal text : String) :
    main py preamble true (.ok uapi) (.ok internal) (.ok (preamble ++ text).toUTF8.data.toList) =
        .unchanged ↔
      generate py uapi internal = .ok text := by
  rw [main, generateFrom_ok]
  cases generate py uapi internal with
  | error message => simp [Except.map]
  | ok generated =>
    have htext : (preamble ++ text).toUTF8.data.toList =
        (preamble ++ generated).toUTF8.data.toList ↔
        generated = text := by
      rw [Array.toList_inj, ← ByteArray.ext_iff, String.toUTF8, String.toUTF8,
        String.toByteArray_inj, String.append_right_inj, eq_comm]
    simp only [Except.map, if_true, ne_eq, htext, ite_not, Except.ok.injEq]
    split <;> simp [*]

/-- The check of the committed tables passes exactly when the headers are accepted and
    `known_names` gives every mask the names that they give to its bits. -/
theorem check_passes_iff (py : Python) (preamble uapi internal : String) :
    main py preamble true (.ok uapi) (.ok internal)
        (.ok (preamble ++ render committedTables).toUTF8.data.toList) = .unchanged ↔
      ∃ text uapiLines internalLines, generate py uapi internal = .ok text ∧
        logicalLines py uapi = .ok uapiLines ∧ logicalLines py internal = .ok internalLines ∧
        ∀ (kind : AccessKind) (mask : AccessMask kind) (name : String),
          name ∈ mask.knownNames ↔ ∃ shift, Mask.bit mask.bits shift = true ∧
            NamesBit py uapiLines internalLines kind shift name := by
  rw [main_eq_unchanged_iff]
  constructor
  · intro hgenerate
    obtain ⟨uapiLines, internalLines, tables, huapi, hinternal, htext, hemitted⟩ :=
      emitted_of_generate hgenerate
    obtain rfl := render_inj named_committedTables (named_of_emitted hemitted) htext
    refine ⟨_, uapiLines, internalLines, hgenerate, huapi, hinternal, fun kind mask name => ?_⟩
    obtain ⟨body, hbody⟩ := hemitted kind
    simp only [mem_knownNames_iff, hbody.mem_iff]
  · rintro ⟨text, uapiLines, internalLines, hgenerate, huapi, hinternal, hnames⟩
    obtain ⟨uapiLines', internalLines', tables, huapi', hinternal', rfl, hemitted⟩ :=
      emitted_of_generate hgenerate
    obtain rfl := Except.ok.inj (huapi.symm.trans huapi')
    obtain rfl := Except.ok.inj (hinternal.symm.trans hinternal')
    -- The generated tables give the same names as the committed ones
    have htables : tables = committedTables := by
      funext kind
      obtain ⟨body, hbody⟩ := hemitted kind
      refine table_eq_of_names hbody.shift_lt (fun _ => shift_lt_committedTables) hbody.ascending
        (pairwise_committedTables kind) fun bits name => ?_
      have hmask := hnames kind ⟨bits⟩ name
      rw [mem_knownNames_iff] at hmask
      simp only [hbody.mem_iff, hmask]
    rw [hgenerate, htables]

end Landlock.Generator
