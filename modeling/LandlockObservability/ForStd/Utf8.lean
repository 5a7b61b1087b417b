import Mathlib.Data.List.Basic

/-!
# UTF-8 with bytes that belong to no character

Splits bytes into characters, and single bytes where no character starts.  Whatever the bytes
are, the pieces are a partition of them.
-/

namespace Utf8

/-- A character, or a byte that belongs to none. -/
inductive Piece where
  | char (c : Char)
  | byte (b : UInt8)
  deriving DecidableEq, Repr

def Piece.bytes : Piece → List UInt8
  | char c => String.utf8EncodeChar c
  | byte b => [b]

/-- The code point that the first bytes have if they encode one. -/
def candidate (bytes : List UInt8) : Nat :=
  let byte (i : Nat) : Nat := (bytes.getD i 0).toNat
  let low (i : Nat) : Nat := byte i % 64
  if byte 0 < 0x80 then byte 0
  else if byte 0 < 0xe0 then byte 0 % 32 * 64 + low 1
  else if byte 0 < 0xf0 then (byte 0 % 16 * 64 + low 1) * 64 + low 2
  else ((byte 0 % 8 * 64 + low 1) * 64 + low 2) * 64 + low 3

/-- The character that some bytes start with, and the rest.  The encoding of the candidate is
    compared with the bytes, so that overlong forms and surrogates are none. -/
def decodeChar (bytes : List UInt8) : Option (Char × List UInt8) :=
  let c := Char.ofNat (candidate bytes)
  let encoded := String.utf8EncodeChar c
  if encoded.isPrefixOf bytes then some (c, bytes.drop encoded.length) else none

/-- A decoded character stands at the start of the bytes. -/
private theorem decodeChar_eq_some {bytes rest : List UInt8} {c : Char}
    (h : decodeChar bytes = some (c, rest)) : String.utf8EncodeChar c ++ rest = bytes := by
  rw [decodeChar] at h
  split at h
  · rename_i hstart
    obtain ⟨rfl, rfl⟩ := Prod.mk.inj (Option.some.inj h)
    exact List.prefix_iff_eq_append.mp (List.isPrefixOf_iff_prefix.mp hstart)
  · cases h

/-- At most `fuel` pieces that some bytes consist of. -/
def piecesUpTo : Nat → List UInt8 → List Piece
  | 0, _ => []
  | _ + 1, [] => []
  | fuel + 1, byte :: bytes =>
    match decodeChar (byte :: bytes) with
    | some (c, rest) => .char c :: piecesUpTo fuel rest
    | none => .byte byte :: piecesUpTo fuel bytes

/-- The pieces of some bytes; each has a byte, so that there are not more of them. -/
def pieces (bytes : List UInt8) : List Piece := piecesUpTo bytes.length bytes

/-- Every character takes a byte. -/
private theorem length_utf8EncodeChar_pos (c : Char) : 0 < (String.utf8EncodeChar c).length := by
  rw [String.length_utf8EncodeChar]
  exact c.utf8Size_pos

/-- With enough fuel, the pieces are all of the bytes. -/
private theorem piecesUpTo_bytes {fuel : Nat} {bytes : List UInt8} (h : bytes.length ≤ fuel) :
    (piecesUpTo fuel bytes).flatMap Piece.bytes = bytes := by
  induction fuel generalizing bytes with
  | zero =>
    rw [List.length_eq_zero_iff.mp (Nat.le_zero.mp h)]
    rfl
  | succ fuel ih =>
    cases bytes with
    | nil => rfl
    | cons byte bytes =>
      rw [piecesUpTo]
      split
      · rename_i c rest hdecode
        have hbytes := decodeChar_eq_some hdecode
        -- A character takes bytes away, so that the fuel is enough for the rest
        have hlength := congrArg List.length hbytes
        have hpos := length_utf8EncodeChar_pos c
        rw [List.length_append] at hlength
        rw [List.flatMap_cons, ih (by omega)]
        exact hbytes
      · rw [List.flatMap_cons, ih (Nat.le_of_succ_le_succ h)]
        rfl

/-- The pieces are a partition of the bytes. -/
theorem pieces_bytes (bytes : List UInt8) : (pieces bytes).flatMap Piece.bytes = bytes :=
  piecesUpTo_bytes (Nat.le_refl _)

end Utf8
