import Mathlib.Data.List.Basic

/-!
# Numerals in texts

Positional numerals with up to sixteen digits, and fields of a text that end at a
separator.  Numerals are injective and contain only digits, so that a number before a
separator can be read back.
-/

namespace Numeral

/-- The numeral of a number, without leading zeros. -/
def text (base n : Nat) : String := String.ofList (Nat.toDigits base n)

/-- Digits up to `f` are different characters. -/
theorem digitChar_inj {a b : Nat} (ha : a < 16) (hb : b < 16)
    (h : a.digitChar = b.digitChar) : a = b := by
  have hall : ∀ a < 16, ∀ b < 16, a.digitChar = b.digitChar → a = b := by decide
  exact hall a ha b hb h

/-- Numerals of one base are different for different numbers. -/
theorem toDigits_inj {base : Nat} (hbase : 1 < base) (hle : base ≤ 16) {a b : Nat}
    (h : Nat.toDigits base a = Nat.toDigits base b) : a = b := by
  induction a using Nat.strongRecOn generalizing b with
  | ind a ih =>
    rw [Nat.toDigits_eq_if hbase, Nat.toDigits_eq_if hbase (n := b)] at h
    have hne : ∀ n, Nat.toDigits base n ≠ [] := by
      intro n
      rw [Nat.toDigits_eq_if hbase]
      split <;> simp
    split at h
    · split at h
      · exact digitChar_inj (by omega) (by omega) (List.cons.inj h).1
      · -- one digit is not several
        have hlength := congrArg List.length h
        have hpos := List.length_pos_iff.mpr (hne (b / base))
        simp only [List.length_cons, List.length_nil, List.length_append] at hlength
        omega
    · split at h
      · have hlength := congrArg List.length h
        have hpos := List.length_pos_iff.mpr (hne (a / base))
        simp only [List.length_cons, List.length_nil, List.length_append] at hlength
        omega
      · rename_i ha hb
        obtain ⟨hinit, hlast⟩ := List.append_inj' h rfl
        have hamod := Nat.mod_lt a (show 0 < base by omega)
        have hbmod := Nat.mod_lt b (show 0 < base by omega)
        have hmod : a % base = b % base :=
          digitChar_inj (by omega) (by omega) (List.cons.inj hlast).1
        have hdiv : a / base = b / base :=
          ih (a / base) (Nat.div_lt_self (by omega) hbase) hinit
        rw [← Nat.div_add_mod a base, ← Nat.div_add_mod b base, hdiv, hmod]

/-- A number can be read back from its digits. -/
theorem text_inj {base : Nat} (hbase : 1 < base) (hle : base ≤ 16) {a b : Nat}
    (h : text base a = text base b) : a = b := by
  apply toDigits_inj hbase hle
  have hlist := congrArg String.toList h
  rwa [text, text, String.toList_ofList, String.toList_ofList] at hlist

/-- A numeral has only digits. -/
theorem mem_toDigits {base : Nat} (hbase : 1 < base) (hle : base ≤ 16) {n : Nat} {c : Char}
    (hc : c ∈ Nat.toDigits base n) : ∃ digit < 16, c = Nat.digitChar digit := by
  induction n using Nat.strongRecOn with
  | ind n ih =>
    rw [Nat.toDigits_eq_if hbase] at hc
    split at hc
    · exact ⟨n, by omega, List.mem_singleton.mp hc⟩
    · rcases List.mem_append.mp hc with hinit | hlast
      · exact ih (n / base) (Nat.div_lt_self (by omega) hbase) hinit
      · have hmod := Nat.mod_lt n (show 0 < base by omega)
        exact ⟨n % base, by omega, List.mem_singleton.mp hlast⟩

/-- A character that is no digit does not occur in a numeral. -/
theorem notMem_text {base : Nat} (hbase : 1 < base) (hle : base ≤ 16) {n : Nat} {c : Char}
    (hc : ∀ digit < 16, c ≠ Nat.digitChar digit) : c ∉ (text base n).toList := by
  rw [text, String.toList_ofList]
  intro hmem
  obtain ⟨digit, hdigit, heq⟩ := mem_toDigits hbase hle hmem
  exact hc digit hdigit heq

/-- A field that ends at a separator can be read back from what starts with it. -/
theorem eq_of_isPrefix {α : Type*} {field field' rest : List α} {separator : α}
    (h : separator ∉ field) (h' : separator ∉ field')
    (hstart : field ++ [separator] <+: field' ++ separator :: rest) : field = field' := by
  induction field generalizing field' with
  -- A field that ends earlier has the separator where the other has none
  | nil =>
    cases field' with
    | nil => rfl
    | cons c field' =>
      obtain ⟨tail, htail⟩ := hstart
      cases htail
      exact absurd List.mem_cons_self h'
  | cons c field ih =>
    cases field' with
    | nil =>
      obtain ⟨tail, htail⟩ := hstart
      cases htail
      exact absurd List.mem_cons_self h
    | cons c' field' =>
      obtain ⟨tail, htail⟩ := hstart
      obtain ⟨hhead, htail⟩ := List.cons.inj htail
      rw [hhead, ih (fun hmem => h (List.mem_cons_of_mem _ hmem))
        (fun hmem => h' (List.mem_cons_of_mem _ hmem)) ⟨tail, htail⟩]

end Numeral
