import LandlockObservability.Model.Display
import LandlockObservability.Spec.BatchTexts

/-!
# Displayed bytes

What `Display` writes for captured bytes is safe for a terminal and can be read back.  The
bytes are a sequence of characters and of bytes that belong to none; each of them is written
as a code word, and no code word starts another.  The mark for omitted bytes is itself a code
word: it is that of the character U+2026.  A text that ends in it is still unambiguous, since
bytes are only omitted from a capture that is full.

## Key results

- `writePiece_append_inj`: code words can be read back one by one
- `display_readable`: displayed bytes are safe and can be read back
-/

namespace Landlock

open Utf8

variable (u : Unicode)

/-! ## Code words -/

/-- The code word of a piece. -/
def writePiece : Piece → List Char
  | .char c => (writeCharacter u c).toList
  | .byte b => (writeByte b).toList

/-- The pieces that the chunks of some bytes consist of. -/
def chunkPieces (bytes : List UInt8) : List Piece :=
  (u.utf8Chunks bytes).flatMap fun chunk =>
    chunk.valid.toList.map Piece.char ++ chunk.invalid.map Piece.byte

/-- The pieces have the bytes that the chunks were made of. -/
private theorem chunkPieces_bytes (bytes : List UInt8) :
    (chunkPieces u bytes).flatMap Piece.bytes = bytes := by
  rw [chunkPieces, List.flatMap_assoc]
  refine Eq.trans ?_ (u.chunkBytes bytes)
  congr 1
  funext chunk
  simp [Utf8Chunk.bytes, List.flatMap_map, Piece.bytes]

/-- The escaped text is the code words of the pieces, and the mark. -/
private theorem toList_writeEscaped {K : CapturedBytesOrigin} (value : CapturedBytes K)
    (omission : Bool) :
    (value.writeEscaped u omission).toList =
      (chunkPieces u value.bytes).flatMap (writePiece u) ++
        if omission && value.bytesOmitted then ['…'] else [] := by
  have hmark : (if omission && value.bytesOmitted then "…" else "").toList =
      if omission && value.bytesOmitted then ['…'] else [] := by
    split <;> rfl
  rw [CapturedBytes.writeEscaped, String.toList_append, hmark, String.toList_join,
    List.flatMap_map, chunkPieces, List.flatMap_assoc]
  simp [writeValid, List.flatMap_map, writePiece, String.toList_join]

/-- The three forms of a character's code word. -/
private theorem toList_writeCharacter (c : Char) :
    (writeCharacter u c).toList =
      if c = '\\' then ['\\', '\\']
      else if c ≠ ' ' ∧ (u.generalCategory c).isUnsafe then
        '\\' :: 'u' :: '\x7b' :: ((lowerHex c.toNat).toList ++ ['\x7d'])
      else [c] := by
  rw [writeCharacter]
  split
  · rfl
  · split <;> simp

/-- A byte is written with two digits. -/
private theorem toList_writeByte (b : UInt8) :
    (writeByte b).toList =
      ['\\', 'x', Nat.digitChar (b.toNat / 16), Nat.digitChar (b.toNat % 16)] := by
  simp [writeByte]

/-- The character of a code word with braces can be read back, and so can the rest. -/
private theorem braced_append_inj {c c' : Char} {r r' : List Char}
    (h : (lowerHex c.toNat).toList ++ '\x7d' :: r = (lowerHex c'.toNat).toList ++ '\x7d' :: r') :
    c = c' ∧ r = r' := by
  have hbrace : ∀ digit < 16, '\x7d' ≠ Nat.digitChar digit := by decide
  obtain ⟨hhex, hrest⟩ := Line.append_separator_inj
    (Numeral.notMem_text (by decide) (by decide) hbrace)
    (Numeral.notMem_text (by decide) (by decide) hbrace) h
  have hnat := Numeral.text_inj (by decide) (by decide) (String.toList_inj.mp hhex)
  exact ⟨Char.toNat_inj.mp hnat, hrest⟩

/-- A character can be read back from what follows its code word. -/
private theorem writeCharacter_append_inj {c c' : Char} {r r' : List Char}
    (h : (writeCharacter u c).toList ++ r = (writeCharacter u c').toList ++ r') :
    c = c' ∧ r = r' := by
  rw [toList_writeCharacter, toList_writeCharacter] at h
  -- The first character tells a code word with a backslash from a plain one, and the second
  -- tells the two forms with a backslash apart
  split at h
  · rename_i hc
    split at h
    · rename_i hc'
      exact ⟨hc.trans hc'.symm, by simpa using h⟩
    · rename_i hc'
      split at h
      · simp at h
      · exact absurd (List.cons.inj h).1.symm hc'
  · rename_i hc
    split at h
    · split at h
      · simp at h
      · rename_i hc'
        split at h
        · exact braced_append_inj (by simpa using h)
        · exact absurd (List.cons.inj h).1.symm hc'
    · split at h
      · exact absurd (List.cons.inj h).1 hc
      · split at h
        · exact absurd (List.cons.inj h).1 hc
        · exact List.cons.inj h

/-- No character is written like a byte that belongs to none. -/
private theorem writeCharacter_append_ne {c : Char} {b : UInt8} {r r' : List Char} :
    (writeCharacter u c).toList ++ r ≠ (writeByte b).toList ++ r' := by
  rw [toList_writeCharacter, toList_writeByte]
  intro h
  split at h
  · simp at h
  · rename_i hc
    split at h
    · simp at h
    · exact hc (List.cons.inj h).1

/-- So can a byte. -/
private theorem writeByte_append_inj {b b' : UInt8} {r r' : List Char}
    (h : (writeByte b).toList ++ r = (writeByte b').toList ++ r') : b = b' ∧ r = r' := by
  have hb := b.toNat_lt
  have hb' := b'.toNat_lt
  simp only [toList_writeByte, List.cons_append, List.nil_append, List.cons.injEq, true_and] at h
  obtain ⟨hhigh, hlow, hrest⟩ := h
  have hdiv := Numeral.digitChar_inj (by omega) (by omega) hhigh
  have hmod := Numeral.digitChar_inj (by omega) (by omega) hlow
  exact ⟨UInt8.toNat_inj.mp (by omega), hrest⟩

/-- The first piece can be read back from what follows it. -/
theorem writePiece_append_inj (p p' : Piece) (r r' : List Char)
    (h : writePiece u p ++ r = writePiece u p' ++ r') : p = p' ∧ r = r' := by
  cases p with
  | char c =>
    cases p' with
    | char c' =>
      obtain ⟨rfl, hrest⟩ := writeCharacter_append_inj u h
      exact ⟨rfl, hrest⟩
    | byte b' => exact absurd h (writeCharacter_append_ne u)
  | byte b =>
    cases p' with
    | char c' => exact absurd h.symm (writeCharacter_append_ne u)
    | byte b' =>
      obtain ⟨rfl, hrest⟩ := writeByte_append_inj h
      exact ⟨rfl, hrest⟩

/-- No code word is empty. -/
private theorem writePiece_ne_nil (p : Piece) (r : List Char) : writePiece u p ++ r ≠ [] := by
  cases p with
  | char c =>
    rw [writePiece, toList_writeCharacter]
    split
    · simp
    · split <;> simp
  | byte b => simp [writePiece, toList_writeByte]

/-- Pieces can be read back from the concatenation of their code words. -/
private theorem writePieces_inj {ps ps' : List Piece}
    (h : ps.flatMap (writePiece u) = ps'.flatMap (writePiece u)) : ps = ps' := by
  have hnil : ps.flatMap (writePiece u) ++ [] = ps'.flatMap (writePiece u) ++ [] := by rw [h]
  exact (List.flatMap_append_inj (writePiece_append_inj u) (writePiece_ne_nil u)
    (writePiece_ne_nil u) hnil).1

/-- The mark for omitted bytes is the code word of its character. -/
private theorem writePiece_ellipsis : writePiece u (.char '…') = ['…'] := by
  rw [writePiece, toList_writeCharacter, if_neg (by decide), if_neg]
  rw [u.ellipsisSafe]
  simp

/-! ## Reading displayed bytes back -/

/-- The pieces of a value with the mark as one more. -/
def markedPieces {K : CapturedBytesOrigin} (value : CapturedBytes K) : List Piece :=
  chunkPieces u value.bytes ++ if value.bytesOmitted then [.char '…'] else []

/-- What is displayed: the start of the kind of bytes and the code words. -/
private theorem toList_display {K : CapturedBytesOrigin} (value : CapturedBytes K) :
    (value.display u).toList =
      K.displayPrefix.toList ++ (markedPieces u value).flatMap (writePiece u) := by
  rw [CapturedBytes.display, String.toList_append, toList_writeEscaped, markedPieces,
    List.flatMap_append, Bool.true_and]
  split <;> simp [writePiece_ellipsis]

/-- The bytes of the pieces, those of the mark included. -/
private theorem markedPieces_bytes {K : CapturedBytesOrigin} (value : CapturedBytes K) :
    (markedPieces u value).flatMap Piece.bytes =
      value.bytes ++ if value.bytesOmitted then String.utf8EncodeChar '…' else [] := by
  rw [markedPieces, List.flatMap_append, chunkPieces_bytes]
  split <;> simp [Piece.bytes]

/-- A capture from which bytes were omitted is full, so that with the mark it is too long to
    be the whole of a capture. -/
private theorem bytes_marked_inj {K : CapturedBytesOrigin} {a b : CapturedBytes K}
    (h : (a.bytes ++ if a.bytesOmitted then String.utf8EncodeChar '…' else []) =
      b.bytes ++ if b.bytesOmitted then String.utf8EncodeChar '…' else []) :
    a.bytes = b.bytes ∧ a.bytesOmitted = b.bytesOmitted := by
  have hellipsis : (String.utf8EncodeChar '…').length = 3 := by decide
  have hlength := congrArg List.length h
  rw [List.length_append, List.length_append] at hlength
  cases ha : a.bytesOmitted <;> cases hb : b.bytesOmitted <;> rw [ha, hb] at h hlength
  · exact ⟨by simpa using h, rfl⟩
  -- One side is full and has three bytes more, the other is not longer than a full one
  · have hfull := (b.omission hb).2
    have hle := a.lengthLe
    simp [hellipsis] at hlength
    omega
  · have hfull := (a.omission ha).2
    have hle := b.lengthLe
    simp [hellipsis] at hlength
    omega
  · exact ⟨by simpa using h, rfl⟩

/-- Displayed bytes determine what was captured. -/
theorem display_inj {K : CapturedBytesOrigin} {a b : CapturedBytes K}
    (h : a.display u = b.display u) : a.bytes = b.bytes ∧ a.bytesOmitted = b.bytesOmitted := by
  have hlist := congrArg String.toList h
  rw [toList_display, toList_display] at hlist
  have hpieces := writePieces_inj u (List.append_cancel_left hlist)
  have hbytes := congrArg (List.flatMap Piece.bytes) hpieces
  rw [markedPieces_bytes, markedPieces_bytes] at hbytes
  exact bytes_marked_inj hbytes

/-! ## Safety -/

/-- A character that a terminal or a log shows as a character. -/
def terminalSafe (c : Char) : Prop := c = ' ' ∨ (u.generalCategory c).isUnsafe = false

/-- Visible ASCII is safe. -/
private theorem terminalSafe_graphic {c : Char} (h : 0x21 ≤ c.toNat ∧ c.toNat ≤ 0x7e) :
    terminalSafe u c :=
  .inr (u.graphicSafe c h.1 h.2)

/-- So are the digits. -/
private theorem terminalSafe_digitChar {digit : Nat} (h : digit < 16) :
    terminalSafe u (Nat.digitChar digit) := by
  have hall : ∀ digit < 16, 0x21 ≤ (Nat.digitChar digit).toNat ∧
      (Nat.digitChar digit).toNat ≤ 0x7e := by decide
  exact terminalSafe_graphic u (hall digit h)

/-- The code word of a character is safe. -/
private theorem terminalSafe_writeCharacter {c d : Char} (h : d ∈ (writeCharacter u c).toList) :
    terminalSafe u d := by
  rw [toList_writeCharacter] at h
  -- A backslash, a number in braces, or the character itself
  split at h
  · simp only [List.mem_cons, List.not_mem_nil, or_false, or_self] at h
    exact terminalSafe_graphic u (h ▸ by decide)
  · split at h
    · simp only [List.mem_cons, List.mem_append, List.not_mem_nil, or_false] at h
      rcases h with rfl | rfl | rfl | hhex | rfl
      · exact terminalSafe_graphic u (by decide)
      · exact terminalSafe_graphic u (by decide)
      · exact terminalSafe_graphic u (by decide)
      · rw [lowerHex, Numeral.text, String.toList_ofList] at hhex
        obtain ⟨digit, hdigit, rfl⟩ := Numeral.mem_toDigits (by decide) (by decide) hhex
        exact terminalSafe_digitChar u hdigit
      · exact terminalSafe_graphic u (by decide)
    · -- a character that is written as it is was tested
      rename_i hsafe
      rw [List.mem_singleton.mp h, terminalSafe]
      by_cases hspace : c = ' '
      · exact .inl hspace
      · exact .inr (by simpa [hspace] using hsafe)

/-- The code word of a piece is safe. -/
private theorem terminalSafe_writePiece {p : Piece} {d : Char} (h : d ∈ writePiece u p) :
    terminalSafe u d := by
  cases p with
  | char c => exact terminalSafe_writeCharacter u h
  | byte b =>
    have hb := b.toNat_lt
    rw [writePiece, toList_writeByte] at h
    simp only [List.mem_cons, List.not_mem_nil, or_false] at h
    rcases h with rfl | rfl | rfl | rfl
    · exact terminalSafe_graphic u (by decide)
    · exact terminalSafe_graphic u (by decide)
    · exact terminalSafe_digitChar u (by omega)
    · exact terminalSafe_digitChar u (by omega)

/-- Everything that is displayed is safe. -/
private theorem terminalSafe_display {K : CapturedBytesOrigin} {value : CapturedBytes K} {d : Char}
    (h : d ∈ (value.display u).toList) : terminalSafe u d := by
  rw [toList_display, List.mem_append, List.mem_flatMap] at h
  rcases h with hprefix | ⟨p, -, hp⟩
  · cases K with
    | pathname => cases hprefix
    | command => cases hprefix
    | abstractUnixSocketName =>
      rw [List.mem_singleton.mp hprefix]
      exact terminalSafe_graphic u (by decide)
  · exact terminalSafe_writePiece u hp

/-! ## Debug -/

/-- `Debug` removes the mark that `Display` appended, and nothing else. -/
private theorem display_eq_debugEscaped {K : CapturedBytesOrigin} (value : CapturedBytes K) :
    value.display u = value.debugEscaped u ++ if value.bytesOmitted then "…" else "" := by
  rw [CapturedBytes.debugEscaped]
  split
  · rename_i homitted
    -- The mark that is removed is the one after the last code word
    have hmark : value.display u = K.displayPrefix ++ value.writeEscaped u false ++ "…" := by
      rw [CapturedBytes.display, CapturedBytes.writeEscaped, CapturedBytes.writeEscaped, homitted]
      simp [String.append_assoc]
    rw [hmark, String.toList_append, show "…".toList = ['…'] from rfl, List.dropLast_concat,
      String.ofList_toList]
  · rw [String.append_empty]

/-- Displayed bytes have no character of an unsafe category but the space, determine the bytes
    and whether some were omitted, and are what `Debug` shows with the mark. -/
theorem display_readable (u : Unicode) {K : CapturedBytesOrigin} (value : CapturedBytes K) :
    (∀ c ∈ (value.display u).toList, c = ' ' ∨ (u.generalCategory c).isUnsafe = false) ∧
    (∀ other : CapturedBytes K, value.display u = other.display u ↔
      value.bytes = other.bytes ∧ value.bytesOmitted = other.bytesOmitted) ∧
    value.display u = value.debugEscaped u ++ if value.bytesOmitted then "…" else "" := by
  refine ⟨fun c hc => terminalSafe_display u hc, ?_, display_eq_debugEscaped u value⟩
  intro other
  constructor
  · exact display_inj u
  · rintro ⟨hbytes, homitted⟩
    rw [CapturedBytes.ext hbytes homitted]

-- a backslash, a line feed, a byte that belongs to no character, and U+2026 itself
example :
    (⟨[0x5c, 0x0a, 0xff, 0xe2, 0x80, 0xa6], false, by decide, by decide, nofun⟩ :
      CapturedPath).display .reference = "\\\\\\u\x7ba\x7d\\xff…" := by
  decide

end Landlock
