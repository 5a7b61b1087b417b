import LandlockObservability.ForStd.Utf8
import LandlockObservability.Model.Batch

/-!
# Display of captured bytes

Models the `Display` and `Debug` implementations of `src/event/string.rs`, which the
interactive mode shows captured bytes with.  What the standard library and the Unicode tables
do is a structure, `Unicode`, that carries what is assumed of them; `Unicode.reference` is one
value of it that can be evaluated.
-/

namespace Landlock

/-- `DISPLAY_PREFIX`. -/
def CapturedBytesOrigin.displayPrefix : CapturedBytesOrigin → String
  | pathname => ""
  | command => ""
  | abstractUnixSocketName => "@"

/-! ## Unicode -/

/-- The general categories that the code tells apart; all others are one here. -/
inductive GeneralCategory where
  | control
  | format
  | lineSeparator
  | paragraphSeparator
  | spaceSeparator
  | other
  deriving DecidableEq, Repr

/-- The `unsafe_category` of `write_valid`. -/
def GeneralCategory.isUnsafe : GeneralCategory → Bool
  | other => false
  | _ => true

/-- `Utf8Chunk`: a text, and bytes after it that are not one. -/
structure Utf8Chunk where
  valid : String
  invalid : List UInt8
  deriving DecidableEq, Repr

/-- The bytes that a chunk stands for. -/
def Utf8Chunk.bytes (chunk : Utf8Chunk) : List UInt8 :=
  chunk.valid.toList.flatMap String.utf8EncodeChar ++ chunk.invalid

/-- `<[u8]>::utf8_chunks` and `get_general_category`, with what is assumed of them. -/
structure Unicode where
  utf8Chunks : List UInt8 → List Utf8Chunk
  generalCategory : Char → GeneralCategory
  /-- The chunks are a partition of the bytes. -/
  chunkBytes : ∀ bytes, (utf8Chunks bytes).flatMap Utf8Chunk.bytes = bytes
  /-- The graphic characters of ASCII are safe. -/
  graphicSafe : ∀ c : Char, '!' ≤ c → c ≤ '~' → (generalCategory c).isUnsafe = false
  /-- So is the character that marks an omission. -/
  ellipsisSafe : (generalCategory '…').isUnsafe = false

namespace Unicode

/-- The chunk of a single piece. -/
def chunkOf : Utf8.Piece → Utf8Chunk
  | .char c => ⟨String.singleton c, []⟩
  | .byte b => ⟨"", [b]⟩

/-- A chunk has the bytes of its piece. -/
private theorem bytes_chunkOf (piece : Utf8.Piece) : (chunkOf piece).bytes = piece.bytes := by
  cases piece <;> simp [chunkOf, Utf8Chunk.bytes, Utf8.Piece.bytes]

/-- The characters of the categories that are unsafe, as of Unicode 16. -/
def unsafeRanges : List (Nat × Nat × GeneralCategory) :=
  [(0x00, 0x1f, .control), (0x20, 0x20, .spaceSeparator), (0x7f, 0x9f, .control),
   (0xa0, 0xa0, .spaceSeparator), (0xad, 0xad, .format), (0x600, 0x605, .format),
   (0x61c, 0x61c, .format), (0x6dd, 0x6dd, .format), (0x70f, 0x70f, .format),
   (0x890, 0x891, .format), (0x8e2, 0x8e2, .format), (0x1680, 0x1680, .spaceSeparator),
   (0x180e, 0x180e, .format), (0x2000, 0x200a, .spaceSeparator), (0x200b, 0x200f, .format),
   (0x2028, 0x2028, .lineSeparator), (0x2029, 0x2029, .paragraphSeparator),
   (0x202a, 0x202e, .format), (0x202f, 0x202f, .spaceSeparator),
   (0x205f, 0x205f, .spaceSeparator), (0x2060, 0x2064, .format), (0x2066, 0x206f, .format),
   (0x3000, 0x3000, .spaceSeparator), (0xfeff, 0xfeff, .format), (0xfff9, 0xfffb, .format),
   (0x110bd, 0x110bd, .format), (0x110cd, 0x110cd, .format), (0x13430, 0x1343f, .format),
   (0x1bca0, 0x1bca3, .format), (0x1d173, 0x1d17a, .format), (0xe0001, 0xe0001, .format),
   (0xe0020, 0xe007f, .format)]

/-- No graphic ASCII character is unsafe. -/
private theorem not_graphic_of_mem_unsafeRanges :
    ∀ range ∈ unsafeRanges, range.2.1 < 0x21 ∨ 0x7e < range.1 := by decide

/-- The category of a character, as far as it is unsafe. -/
def categoryOf (c : Char) : GeneralCategory :=
  -- The ranges do not overlap
  let range := unsafeRanges.find? fun range => range.1 ≤ c.toNat ∧ c.toNat ≤ range.2.1
  range.elim .other fun range => range.2.2

/-- A decoder of UTF-8 and the categories of characters. -/
def reference : Unicode where
  utf8Chunks bytes := (Utf8.pieces bytes).map chunkOf
  generalCategory := categoryOf
  chunkBytes bytes := by
    rw [List.flatMap_map]
    simp only [bytes_chunkOf]
    exact Utf8.pieces_bytes bytes
  graphicSafe c hlow hhigh := by
    have hlow : 0x21 ≤ c.toNat := hlow
    have hhigh : c.toNat ≤ 0x7e := hhigh
    have hnone : (unsafeRanges.find? fun range => range.1 ≤ c.toNat ∧ c.toNat ≤ range.2.1) =
        none := by
      refine List.find?_eq_none.mpr fun range hrange => ?_
      have hoff := not_graphic_of_mem_unsafeRanges range hrange
      rw [decide_eq_true_eq]
      omega
    rw [categoryOf, hnone]
    rfl
  ellipsisSafe := by decide

end Unicode

/-! ## Escaping -/

variable (u : Unicode)

/-- One character of `write_valid`. -/
def writeCharacter (character : Char) : String :=
  -- A backslash starts every escape, so that it is escaped itself
  if character = '\\' then "\\\\"
  -- The plain space is the one separator that is shown
  else if character ≠ ' ' ∧ (u.generalCategory character).isUnsafe then
    "\\u\x7b" ++ lowerHex character.toNat ++ "\x7d"
  else String.singleton character

/-- `write_valid`. -/
def writeValid (valid : String) : String := String.join (valid.toList.map (writeCharacter u))

/-- `\x{byte:02x}`. -/
def writeByte (byte : UInt8) : String :=
  "\\x" ++ String.ofList [Nat.digitChar (byte.toNat / 16), Nat.digitChar (byte.toNat % 16)]

namespace CapturedBytes

variable {K : CapturedBytesOrigin} (value : CapturedBytes K)

/-- `write_escaped`. -/
def writeEscaped (omission : Bool) : String :=
  String.join ((u.utf8Chunks value.bytes).map fun chunk =>
    writeValid u chunk.valid ++ String.join (chunk.invalid.map writeByte)) ++
    if omission && value.bytesOmitted then "…" else ""

/-- `Display`. -/
def display : String := K.displayPrefix ++ value.writeEscaped u true

/-- The `escaped` string of `Debug`; `pop` removes the last character. -/
def debugEscaped : String :=
  let escaped := value.display u
  -- `Debug` shows the omission in a field of its own
  if value.bytesOmitted then String.ofList escaped.toList.dropLast else escaped

end CapturedBytes

end Landlock
