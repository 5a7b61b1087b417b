import Mathlib.Data.Finmap
import Mathlib.Logic.Function.Conjugate

/-!
# Entry updates on finite maps

`Finmap` is Mathlib's finite map up to the order of its entries, so two maps are
equal exactly when they have the same lookups.  `updateEntry` is the usual
"find the entry or insert a default, then change it in place".  The lemmas here
say what it does to lookups and when two updates, or two lists of updates, can be
exchanged.
-/

namespace Finmap

variable {α β : Type*} [DecidableEq α]

/-- Replace the entry at `a`, present or not, by what `f` makes of it. -/
def upsert (m : Finmap fun _ : α => β) (a : α) (f : Option β → β) : Finmap fun _ : α => β :=
  m.insert a (f (m.lookup a))

@[simp] theorem lookup_upsert_self (m : Finmap fun _ : α => β) (a : α) (f : Option β → β) :
    (m.upsert a f).lookup a = some (f (m.lookup a)) := by
  simp [upsert]

/-- The other entries stay. -/
theorem lookup_upsert_of_ne (m : Finmap fun _ : α => β) {a a' : α} (f : Option β → β)
    (h : a' ≠ a) : (m.upsert a f).lookup a' = m.lookup a' := by
  simp [upsert, lookup_insert_of_ne _ h]

@[simp] theorem mem_upsert (m : Finmap fun _ : α => β) (a a' : α) (f : Option β → β) :
    a' ∈ m.upsert a f ↔ a' = a ∨ a' ∈ m := by
  simp [upsert]

/-- A map that shows other values still shows them when both change at one key. -/
theorem lookup_upsert_of_view {γ : Type*} {view : α → γ → β} {m : Finmap fun _ : α => β}
    {φ : α → Option γ} (hm : ∀ a, m.lookup a = (φ a).map (view a)) (a : α) {f : Option β → β}
    {c : γ} (hf : f ((φ a).map (view a)) = view a c) (a' : α) :
    (m.upsert a f).lookup a' = (Function.update φ a (some c) a').map (view a') := by
  by_cases ha : a' = a
  · subst ha
    rw [lookup_upsert_self, Function.update_self, Option.map_some, hm, hf]
  · rw [lookup_upsert_of_ne m f ha, Function.update_of_ne ha, hm]

/-- Replacing an entry keeps what holds of every key and its value. -/
theorem forall_lookup_upsert {P : α → β → Prop} {m : Finmap fun _ : α => β}
    (hm : ∀ a b, m.lookup a = some b → P a b) (a : α) {f : Option β → β} (hnone : P a (f none))
    (hsome : ∀ b, P a b → P a (f (some b))) :
    ∀ a' b, (m.upsert a f).lookup a' = some b → P a' b := by
  intro a' b hlookup
  -- The replaced entry was there, or was not
  by_cases ha : a' = a
  · subst ha
    rw [lookup_upsert_self, Option.some.injEq] at hlookup
    subst hlookup
    cases hold : m.lookup a' with
    | none => exact hnone
    | some old => exact hsome old (hm a' old hold)
  · rw [lookup_upsert_of_ne m f ha] at hlookup
    exact hm a' b hlookup

/-- Entries at different keys are replaced in any order; at one key the two
    functions have to agree on the order. -/
theorem upsert_comm (m : Finmap fun _ : α => β) {a a' : α} {f g : Option β → β}
    (h : a = a' → ∀ o, g (some (f o)) = f (some (g o))) :
    (m.upsert a f).upsert a' g = (m.upsert a' g).upsert a f := by
  by_cases haa : a = a'
  · subst haa
    simp [upsert, h rfl]
  · have hne : a' ≠ a := fun h' => haa h'.symm
    simp only [upsert, lookup_insert_of_ne _ hne, lookup_insert_of_ne _ haa]
    exact insert_insert_of_ne _ haa

/-- An update that changes nothing the second time can be repeated. -/
theorem upsert_idem (m : Finmap fun _ : α => β) (a : α) {f : Option β → β}
    (h : ∀ o, f (some (f o)) = f o) : (m.upsert a f).upsert a f = m.upsert a f := by
  simp [upsert, h]

/-- Change the value at `a` with `f`, starting from `d` if there is none. -/
def updateEntry (m : Finmap fun _ : α => β) (a : α) (d : β) (f : β → β) :
    Finmap fun _ : α => β :=
  m.upsert a fun o => f (o.getD d)

@[simp] theorem lookup_updateEntry_self (m : Finmap fun _ : α => β) (a : α) (d : β)
    (f : β → β) :
    (m.updateEntry a d f).lookup a = some (f ((m.lookup a).getD d)) :=
  lookup_upsert_self m a _

/-- The other entries stay. -/
private theorem lookup_updateEntry_of_ne (m : Finmap fun _ : α => β) {a a' : α} (d : β)
    (f : β → β) (h : a' ≠ a) :
    (m.updateEntry a d f).lookup a' = m.lookup a' :=
  lookup_upsert_of_ne m _ h

@[simp] theorem mem_updateEntry (m : Finmap fun _ : α => β) (a a' : α) (d : β)
    (f : β → β) :
    a' ∈ m.updateEntry a d f ↔ a' = a ∨ a' ∈ m :=
  mem_upsert m a a' _

/-- The default only matters through the value `f` makes of it. -/
theorem updateEntry_congr (m : Finmap fun _ : α => β) (a : α) {d d' : β} {f : β → β}
    (hd : f d = f d') : m.updateEntry a d f = m.updateEntry a d' f := by
  simp only [updateEntry, upsert]
  cases m.lookup a with
  | none => simp [hd]
  | some b => rfl

/-- Two updates at one entry with a common default compose. -/
private theorem updateEntry_updateEntry (m : Finmap fun _ : α => β) (a : α) (d : β)
    (f g : β → β) :
    (m.updateEntry a d f).updateEntry a d g = m.updateEntry a d (g ∘ f) := by
  simp [updateEntry, upsert]

/-- Updates at different entries can be exchanged; at one entry they can when the
    two functions can. -/
private theorem updateEntry_comm (m : Finmap fun _ : α => β) {a a' : α} (d : α → β)
    {f g : β → β} (h : a = a' → Function.Commute f g) :
    (m.updateEntry a (d a) f).updateEntry a' (d a') g =
      (m.updateEntry a' (d a') g).updateEntry a (d a) f := by
  refine upsert_comm m fun haa o => ?_
  subst haa
  exact ((h rfl) _).symm

/-! ## Lists of updates -/

/-- Run a list of updates from left to right, with a default for every key. -/
def updateEntries (d : α → β) (m : Finmap fun _ : α => β) (us : List (α × (β → β))) :
    Finmap fun _ : α => β :=
  us.foldl (fun m u => m.updateEntry u.1 (d u.1) u.2) m

section

variable (d : α → β) (m : Finmap fun _ : α => β)

@[simp] theorem updateEntries_nil : updateEntries d m [] = m := rfl

@[simp] theorem updateEntries_cons (u : α × (β → β)) (us : List (α × (β → β))) :
    updateEntries d m (u :: us) = updateEntries d (m.updateEntry u.1 (d u.1) u.2) us := rfl

/-- Two lists of updates are run one after the other. -/
theorem updateEntries_append (us vs : List (α × (β → β))) :
    updateEntries d m (us ++ vs) = updateEntries d (updateEntries d m us) vs := by
  simp [updateEntries]

/-- A key that no update names keeps its entry. -/
theorem lookup_updateEntries_of_notMem (us : List (α × (β → β))) {a : α}
    (h : ∀ u ∈ us, u.1 ≠ a) : (updateEntries d m us).lookup a = m.lookup a := by
  induction us generalizing m with
  | nil => rfl
  | cons u us ih =>
    rw [updateEntries_cons, ih _ fun v hv => h v (List.mem_cons_of_mem u hv)]
    exact lookup_updateEntry_of_ne m _ _ (Ne.symm (h u List.mem_cons_self))

/-- The keys after a list of updates are the old ones and those it names. -/
theorem mem_updateEntries (us : List (α × (β → β))) (a : α) :
    a ∈ updateEntries d m us ↔ (∃ u ∈ us, u.1 = a) ∨ a ∈ m := by
  induction us generalizing m with
  | nil => simp
  | cons u us ih =>
    rw [updateEntries_cons, ih, mem_updateEntry]
    -- A key is named by the first update, by a later one, or was there
    constructor
    · rintro (⟨v, hv, hva⟩ | rfl | hm)
      · exact Or.inl ⟨v, List.mem_cons_of_mem u hv, hva⟩
      · exact Or.inl ⟨u, List.mem_cons_self, rfl⟩
      · exact Or.inr hm
    · rintro (⟨v, hv, hva⟩ | hm)
      · rcases List.mem_cons.mp hv with rfl | hv
        · exact Or.inr (Or.inl hva.symm)
        · exact Or.inl ⟨v, hv, hva⟩
      · exact Or.inr (Or.inr hm)

/-- What a list of updates makes of the value at one key. -/
def updatesAt (us : List (α × (β → β))) (a : α) (b : β) : β :=
  us.foldl (fun b u => if u.1 = a then u.2 b else b) b

@[simp] theorem updatesAt_nil (a : α) (b : β) : updatesAt [] a b = b := rfl

@[simp] theorem updatesAt_cons (u : α × (β → β)) (us : List (α × (β → β))) (a : α) (b : β) :
    updatesAt (u :: us) a b = updatesAt us a (if u.1 = a then u.2 b else b) := rfl

@[simp] theorem updatesAt_append (us vs : List (α × (β → β))) (a : α) (b : β) :
    updatesAt (us ++ vs) a b = updatesAt vs a (updatesAt us a b) := by
  simp [updatesAt]

/-- An entry, or its default, sees of a list of updates those at its key. -/
theorem getD_lookup_updateEntries (us : List (α × (β → β))) (a : α) :
    ((updateEntries d m us).lookup a).getD (d a) = updatesAt us a ((m.lookup a).getD (d a)) := by
  induction us generalizing m with
  | nil => rfl
  | cons u us ih =>
    rw [updateEntries_cons, ih, updatesAt_cons]
    by_cases ha : u.1 = a
    · subst ha
      rw [lookup_updateEntry_self, if_pos rfl, Option.getD_some]
    · rw [lookup_updateEntry_of_ne _ _ _ (Ne.symm ha), if_neg ha]

/-- The entry at a key that some update names. -/
theorem lookup_updateEntries_of_mem (us : List (α × (β → β))) {a : α} (h : ∃ u ∈ us, u.1 = a) :
    (updateEntries d m us).lookup a = some (updatesAt us a ((m.lookup a).getD (d a))) := by
  obtain ⟨b, hb⟩ := mem_iff.mp ((mem_updateEntries d m us a).mpr (.inl h))
  rw [← getD_lookup_updateEntries, hb, Option.getD_some]

/-- A property of values that the defaults have and every update keeps holds of the
    whole map afterwards. -/
theorem forall_lookup_updateEntries (P : α → β → Prop) (us : List (α × (β → β)))
    (hm : ∀ a b, m.lookup a = some b → P a b) (hd : ∀ a, P a (d a))
    (hu : ∀ u ∈ us, ∀ b, P u.1 b → P u.1 (u.2 b)) {a : α} {b : β}
    (h : (updateEntries d m us).lookup a = some b) : P a b := by
  induction us generalizing m with
  | nil => exact hm a b h
  | cons u us ih =>
    refine ih (m.updateEntry u.1 (d u.1) u.2) ?_
      (fun v hv => hu v (List.mem_cons_of_mem u hv)) h
    intro a' b' hab
    -- The entry that is updated was there or is a default; the others stay
    by_cases ha : a' = u.1
    · subst ha
      rw [lookup_updateEntry_self, Option.some.injEq] at hab
      subst hab
      apply hu u List.mem_cons_self
      cases hl : m.lookup u.1 with
      | none => exact hd u.1
      | some c => exact hm u.1 c hl
    · rw [lookup_updateEntry_of_ne _ _ _ ha] at hab
      exact hm a' b' hab

/-- A view of the values that the defaults do not have and no update changes is the same
    afterwards. -/
theorem bind_lookup_updateEntries {γ : Type*} (view : β → Option γ) (us : List (α × (β → β)))
    (hd : ∀ a, view (d a) = none) (hu : ∀ u ∈ us, ∀ b, view (u.2 b) = view b) (a : α) :
    ((updateEntries d m us).lookup a).bind view = (m.lookup a).bind view := by
  induction us generalizing m with
  | nil => rfl
  | cons u us ih =>
    rw [updateEntries_cons, ih _ fun v hv => hu v (List.mem_cons_of_mem u hv)]
    by_cases ha : a = u.1
    · subst ha
      rw [lookup_updateEntry_self, Option.bind_some, hu u List.mem_cons_self]
      cases m.lookup u.1 with
      | none => exact hd u.1
      | some b => rfl
    · rw [lookup_updateEntry_of_ne _ _ _ ha]

/-- One update moves past a list it commutes with. -/
private theorem updateEntries_updateEntry (us : List (α × (β → β))) (v : α × (β → β))
    (h : ∀ u ∈ us, v.1 = u.1 → Function.Commute v.2 u.2) :
    updateEntries d (m.updateEntry v.1 (d v.1) v.2) us =
      (updateEntries d m us).updateEntry v.1 (d v.1) v.2 := by
  induction us generalizing m with
  | nil => rfl
  | cons u us ih =>
    rw [updateEntries_cons, updateEntry_comm m d (h u List.mem_cons_self),
      ih _ fun w hw => h w (List.mem_cons_of_mem u hw), updateEntries_cons]

/-- Two lists of updates can be exchanged when their members can. -/
theorem updateEntries_comm (us vs : List (α × (β → β)))
    (h : ∀ u ∈ us, ∀ v ∈ vs, u.1 = v.1 → Function.Commute u.2 v.2) :
    updateEntries d (updateEntries d m us) vs = updateEntries d (updateEntries d m vs) us := by
  induction us generalizing m with
  | nil => rfl
  | cons u us ih =>
    rw [updateEntries_cons, ih _ fun w hw => h w (List.mem_cons_of_mem u hw),
      updateEntries_updateEntry d m vs u (h u List.mem_cons_self), updateEntries_cons]

/-- Running a list of updates twice changes nothing more, when its members are
    idempotent and can be exchanged. -/
theorem updateEntries_idem (us : List (α × (β → β)))
    (hidem : ∀ u ∈ us, ∀ b, u.2 (u.2 b) = u.2 b)
    (hcomm : ∀ u ∈ us, ∀ v ∈ us, u.1 = v.1 → Function.Commute u.2 v.2) :
    updateEntries d (updateEntries d m us) us = updateEntries d m us := by
  induction us generalizing m with
  | nil => rfl
  | cons u us ih =>
    have hu : ∀ v ∈ us, u.1 = v.1 → Function.Commute u.2 v.2 :=
      fun v hv => hcomm u List.mem_cons_self v (List.mem_cons_of_mem u hv)
    have hself : (u.2 ∘ u.2) = u.2 := funext (hidem u List.mem_cons_self)
    -- The first update moves to the second copy of itself and is absorbed
    rw [updateEntries_cons, updateEntries_cons, updateEntries_updateEntry d m us u hu,
      updateEntry_updateEntry, hself, ← updateEntries_updateEntry d m us u hu]
    exact ih _ (fun v hv => hidem v (List.mem_cons_of_mem u hv)) fun v hv w hw =>
      hcomm v (List.mem_cons_of_mem u hv) w (List.mem_cons_of_mem u hw)

end

/-- After a fold of `upsert`s an entry has seen the elements with its key. -/
theorem lookup_foldl_upsert {ε : Type*} (key : ε → α) (f : ε → Option β → β) (xs : List ε)
    (m : Finmap fun _ : α => β) (a : α) :
    (xs.foldl (fun m x => m.upsert (key x) (f x)) m).lookup a =
      (xs.filter fun x => key x = a).foldl (fun o x => some (f x o)) (m.lookup a) := by
  induction xs generalizing m with
  | nil => rfl
  | cons x xs ih =>
    rw [List.foldl_cons, ih, List.filter_cons]
    by_cases ha : key x = a
    · subst ha
      simp
    · rw [lookup_upsert_of_ne _ _ (Ne.symm ha), if_neg (by simpa using ha)]

/-! ## Mapping the values -/

/-- A function applied to every value. -/
def mapValues {γ : Type*} (f : β → γ) (m : Finmap fun _ : α => β) : Finmap fun _ : α => γ where
  entries := m.entries.map fun entry => ⟨entry.1, f entry.2⟩
  nodupKeys := by
    rw [← Multiset.nodup_keys, Multiset.keys, Multiset.map_map]
    exact Multiset.nodup_keys.mpr m.nodupKeys

@[simp] theorem lookup_mapValues {γ : Type*} (f : β → γ) (m : Finmap fun _ : α => β) (a : α) :
    (m.mapValues f).lookup a = (m.lookup a).map f := by
  apply Option.ext
  intro c
  rw [Option.map_eq_some_iff, lookup_eq_some_iff]
  simp only [mapValues, Multiset.mem_map, lookup_eq_some_iff]
  constructor
  · rintro ⟨⟨a', b⟩, hmem, heq⟩
    cases heq
    exact ⟨b, hmem, rfl⟩
  · rintro ⟨b, hmem, rfl⟩
    exact ⟨⟨a, b⟩, hmem, rfl⟩

/-! ## All entries -/

/-- A map without entries is empty. -/
theorem eq_empty_iff (m : Finmap fun _ : α => β) : m = ∅ ↔ ∀ a, m.lookup a = none := by
  constructor
  · rintro rfl a
    exact lookup_empty a
  · intro h
    apply ext_lookup
    intro a
    rw [h a, lookup_empty]

/-- `all` checks every entry. -/
theorem all_eq_true_iff (m : Finmap fun _ : α => β) (p : α → β → Bool) :
    m.all p = true ↔ ∀ a b, m.lookup a = some b → p a b = true := by
  induction m using Finmap.induction_on with
  | _ l =>
    have hall : (l.toFinmap).all p = l.entries.all fun u => p u.1 u.2 := by
      -- The fold of the library starts from `true`
      have hfold : ∀ (us : List (Sigma fun _ : α => β)) (acc : Bool),
          us.foldl (fun x u => x && p u.1 u.2) acc = (acc && us.all fun u => p u.1 u.2) := by
        intro us
        induction us with
        | nil => simp
        | cons u us ih =>
          intro acc
          rw [List.foldl_cons, ih, List.all_cons, Bool.and_assoc]
      exact (hfold l.entries true).trans (Bool.true_and _)
    rw [hall, List.all_eq_true]
    constructor
    · intro h a b hab
      exact h ⟨a, b⟩ (AList.mem_lookup_iff.mp hab)
    · rintro h ⟨a, b⟩ hmem
      exact h a b (AList.mem_lookup_iff.mpr hmem)

/-- Counting entries by their value counts keys. -/
theorem countP_entries (m : Finmap fun _ : α => β) (p : β → Prop) [DecidablePred p] :
    m.entries.countP (fun u => p u.2) =
      (m.keys.filter fun a => (m.lookup a).any fun b => decide (p b)).card := by
  -- An entry is the value that its key has
  have hlookup : ∀ u ∈ m.entries,
      p u.2 ↔ (m.lookup u.1).any (fun b => decide (p b)) = true := by
    intro u hu
    have hsome : m.lookup u.1 = some u.2 := lookup_eq_some_iff.mpr hu
    rw [hsome]
    simp
  rw [Multiset.countP_eq_card_filter, Multiset.filter_congr hlookup]
  show _ = ((m.entries.map Sigma.fst).filter
    fun a => (m.lookup a).any (fun b => decide (p b)) = true).card
  rw [Multiset.filter_map, Multiset.card_map]
  rfl

/-! ## Growing maps -/

section

variable {r : β → β → Prop}

/-- Every entry of `m` is still there in `m'`, with a value that `r` relates to the
    old one. -/
def Grows (r : β → β → Prop) (m m' : Finmap fun _ : α => β) : Prop :=
  ∀ a b, m.lookup a = some b → ∃ b', m'.lookup a = some b' ∧ r b b'

/-- Nothing is lost when nothing changes. -/
theorem Grows.refl (hr : ∀ b, r b b) (m : Finmap fun _ : α => β) : Grows r m m :=
  fun _ b h => ⟨b, h, hr b⟩

/-- What is not lost twice is not lost. -/
theorem Grows.trans (hr : ∀ a b c, r a b → r b c → r a c) {m₁ m₂ m₃ : Finmap fun _ : α => β}
    (h₁ : Grows r m₁ m₂) (h₂ : Grows r m₂ m₃) : Grows r m₁ m₃ := by
  intro a b hab
  obtain ⟨b', hb', hbb'⟩ := h₁ a b hab
  obtain ⟨b'', hb'', hbb''⟩ := h₂ a b' hb'
  exact ⟨b'', hb'', hr _ _ _ hbb' hbb''⟩

/-- No key is lost. -/
theorem Grows.mem {m m' : Finmap fun _ : α => β} (h : Grows r m m') {a : α} (ha : a ∈ m) :
    a ∈ m' := by
  obtain ⟨b, hb⟩ := mem_iff.mp ha
  obtain ⟨b', hb', _⟩ := h a b hb
  exact mem_iff.mpr ⟨b', hb'⟩

/-- Replacing an entry by a larger one loses nothing. -/
theorem grows_upsert (hr : ∀ b, r b b) (m : Finmap fun _ : α => β) (a : α)
    {f : Option β → β} (hf : ∀ b, r b (f (some b))) : Grows r m (m.upsert a f) := by
  intro a' b hab
  by_cases ha : a' = a
  · subst ha
    exact ⟨f (some b), by rw [lookup_upsert_self, hab], hf b⟩
  · exact ⟨b, by rw [lookup_upsert_of_ne m f ha, hab], hr b⟩

/-- Neither does a list of such updates. -/
theorem grows_updateEntries (hr : ∀ b, r b b) (ht : ∀ a b c, r a b → r b c → r a c)
    (d : α → β) (m : Finmap fun _ : α => β) (us : List (α × (β → β)))
    (hu : ∀ u ∈ us, ∀ b, r b (u.2 b)) : Grows r m (updateEntries d m us) := by
  induction us generalizing m with
  | nil => exact Grows.refl hr m
  | cons u us ih =>
    have hhead : Grows r m (m.updateEntry u.1 (d u.1) u.2) :=
      grows_upsert hr m u.1 fun b => hu u List.mem_cons_self b
    exact hhead.trans ht (ih _ fun v hv => hu v (List.mem_cons_of_mem u hv))

end

end Finmap
