import LandlockObservability.ForStd.Numeral

/-!
# Lines of tokens

Texts of which every character satisfies a condition, and lines whose tokens are separated by
single spaces.  A line can be split into its tokens again if no token has a space, and a field
of a token can be read back if it ends at a character that it does not have.
-/

namespace Line

variable {p : Char → Bool} {s t : String}

/-! ## Characters -/

/-- Every character of the text satisfies `p`. -/
def Consists (p : Char → Bool) (s : String) : Prop := ∀ c ∈ s.toList, p c = true

instance : Decidable (Consists p s) :=
  decidable_of_iff (s.toList.all p = true) List.all_eq_true

/-- Texts of such characters can be appended, -/
theorem Consists.append (hs : Consists p s) (ht : Consists p t) : Consists p (s ++ t) := by
  intro c hc
  rw [String.toList_append, List.mem_append] at hc
  exact hc.elim (hs c) (ht c)

/-- joined, -/
theorem Consists.join {texts : List String} (h : ∀ s ∈ texts, Consists p s) :
    Consists p (String.join texts) := by
  intro c hc
  rw [String.toList_join, List.mem_flatMap] at hc
  obtain ⟨s, hs, hc⟩ := hc
  exact h s hs c hc

/-- joined with a separator, -/
theorem Consists.intercalate {texts : List String} (hs : Consists p s)
    (h : ∀ t ∈ texts, Consists p t) : Consists p (s.intercalate texts) := by
  induction texts with
  | nil => exact fun c hc => by simp at hc
  | cons t texts ih =>
    obtain ⟨ht, htexts⟩ := List.forall_mem_cons.mp h
    cases texts with
    | nil => simpa using ht
    | cons u texts =>
      rw [String.intercalate_cons_cons]
      exact (ht.append hs).append (ih htexts)

/-- and are texts of more characters, too. -/
theorem Consists.mono {q : Char → Bool} (hs : Consists p s) (h : ∀ c, p c = true → q c = true) :
    Consists q s :=
  fun c hc => h c (hs c hc)

/-- A numeral has only digits. -/
theorem consists_numeral {base : Nat} (hbase : 1 < base) (hle : base ≤ 16)
    (hp : ∀ digit < 16, p (Nat.digitChar digit) = true) (n : Nat) :
    Consists p (Numeral.text base n) := by
  intro c hc
  rw [Numeral.text, String.toList_ofList] at hc
  obtain ⟨digit, hdigit, rfl⟩ := Numeral.mem_toDigits hbase hle hc
  exact hp digit hdigit

/-! ## Tokens -/

/-- What stands between the spaces of a line. -/
def tokens (line : String) : List String := (line.toList.splitOn ' ').map String.ofList

/-- Tokens without spaces can be read back. -/
theorem tokens_intercalate {ts : List String} (hne : ts ≠ [])
    (h : ∀ t ∈ ts, ' ' ∉ t.toList) : tokens (" ".intercalate ts) = ts := by
  have hspaces : ∀ token ∈ ts.map String.toList, ' ' ∉ token := by
    intro token htoken
    obtain ⟨t, ht, rfl⟩ := List.mem_map.mp htoken
    exact h t ht
  have hsplit := List.splitOn_intercalate ' ' hspaces (by simpa using hne)
  rw [tokens, String.toList_intercalate]
  rw [show " ".toList = [' '] from rfl, hsplit, List.map_map]
  simp [Function.comp_def]

/-- What stands before the first separator can be read back, and so can the rest. -/
theorem append_separator_inj {α : Type*} {field field' rest rest' : List α} {separator : α}
    (h : separator ∉ field) (h' : separator ∉ field')
    (heq : field ++ separator :: rest = field' ++ separator :: rest') :
    field = field' ∧ rest = rest' := by
  have hstart : field ++ [separator] <+: field' ++ separator :: rest' := by
    refine ⟨rest, ?_⟩
    rw [List.append_assoc]
    exact heq
  obtain rfl := Numeral.eq_of_isPrefix h h' hstart
  exact ⟨rfl, (List.cons.inj (List.append_cancel_left heq)).2⟩

/-- Parts can be read back from a line in which they are separated by a text whose first
    character they do not have. -/
theorem intercalate_inj {separator : Char} {rest : List Char}
    (hs : s.toList = separator :: rest) {ts ts' : List String} (hne : ts ≠ []) (hne' : ts' ≠ [])
    (h : ∀ t ∈ ts, separator ∉ t.toList) (h' : ∀ t ∈ ts', separator ∉ t.toList)
    (heq : s.intercalate ts = s.intercalate ts') : ts = ts' := by
  -- Two parts or more have the separator between them
  have hmem : ∀ (t u : String) (us : List String),
      separator ∈ (s.intercalate (t :: u :: us)).toList := by
    intro t u us
    simp [String.intercalate_cons_cons, hs]
  induction ts generalizing ts' with
  | nil => exact absurd rfl hne
  | cons t ts ih =>
    cases ts' with
    | nil => exact absurd rfl hne'
    | cons t' ts' =>
      obtain ⟨ht, hts⟩ := List.forall_mem_cons.mp h
      obtain ⟨ht', hts'⟩ := List.forall_mem_cons.mp h'
      cases ts with
      | nil =>
        rw [String.intercalate_singleton] at heq
        cases ts' with
        | nil => rw [heq, String.intercalate_singleton]
        | cons u' us' => exact absurd (heq ▸ hmem t' u' us') ht
      | cons u us =>
        cases ts' with
        | nil =>
          rw [String.intercalate_singleton] at heq
          exact absurd (heq ▸ hmem t u us) ht'
        | cons u' us' =>
          have hlist := congrArg String.toList heq
          simp only [String.intercalate_cons_cons, String.toList_append, hs, List.append_assoc,
            List.cons_append] at hlist
          -- The first parts end at the same separator
          obtain ⟨hhead, htail⟩ := append_separator_inj ht ht' hlist
          rw [String.toList_inj.mp hhead, ih (by simp) (by simp) hts hts'
            (String.toList_inj.mp (List.append_cancel_left htail))]

end Line
