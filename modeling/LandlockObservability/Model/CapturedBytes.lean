import Mathlib.Data.List.Basic

/-!
# Captured bytes

Models `src/event/string.rs`: byte strings captured by the kernel side, with the
place they come from (a pathname, a task command, an abstract UNIX socket name)
tracked in the type.  The constants of an origin decide which byte strings are
values of it, and `CapturedBytes.new` is the only way the source builds one.

The source keeps the fields private, so the checks made by `new` hold of every
value.  Here they are proof fields, and a value that breaks one cannot be built.
-/

namespace Landlock

/-- How an origin represents source bytes that did not fit the capture. -/
inductive OmissionPolicy where
  | notSupported
  | fullCapacity
  deriving DecidableEq, Repr

/-- The supported origins of bytes captured by the kernel side. -/
inductive CapturedBytesOrigin where
  | pathname
  | command
  | abstractUnixSocketName
  deriving DecidableEq, Repr

namespace CapturedBytesOrigin

/-- `ALLOWS_NUL`: only a length-delimited origin may contain NUL. -/
def allowsNul : CapturedBytesOrigin → Bool
  | pathname => false
  | command => false
  | abstractUnixSocketName => true

/-- `MAXIMUM_LEN`: the inclusive maximum byte length. -/
def maximumLen : CapturedBytesOrigin → Nat
  | pathname => 256
  | command => 15
  | abstractUnixSocketName => 107

/-- `OMISSION_POLICY`: only pathnames can report omitted bytes. -/
def omissionPolicy : CapturedBytesOrigin → OmissionPolicy
  | pathname => .fullCapacity
  | command => .notSupported
  | abstractUnixSocketName => .notSupported

end CapturedBytesOrigin

/-- The reasons `CapturedBytes.new` rejects its input. -/
inductive CapturedBytesError where
  | interiorNul (position : Nat)
  | tooLong (length maximum : Nat)
  | omissionNotSupported
  | omissionRequiresFullCapacity (length capacity : Nat)
  deriving DecidableEq, Repr

/-- Bytes captured from an origin `K`.  The three proof fields are the checks of
    `CapturedBytes.new`. -/
structure CapturedBytes (K : CapturedBytesOrigin) where
  bytes : List UInt8
  bytesOmitted : Bool
  nulFree : K.allowsNul = false → (0 : UInt8) ∉ bytes
  lengthLe : bytes.length ≤ K.maximumLen
  omission : bytesOmitted = true →
    K.omissionPolicy = .fullCapacity ∧ bytes.length = K.maximumLen
  deriving DecidableEq, Repr

abbrev CapturedPath := CapturedBytes .pathname
abbrev CapturedCommand := CapturedBytes .command
abbrev CapturedAbstractUnixSocketName := CapturedBytes .abstractUnixSocketName

/-- The empty capture belongs to every origin. -/
instance {K : CapturedBytesOrigin} : Inhabited (CapturedBytes K) where
  default := ⟨[], false, fun _ => List.not_mem_nil, Nat.zero_le _, nofun⟩

namespace CapturedBytes

variable {K : CapturedBytesOrigin}

/-- `CapturedBytes::new`: checks NUL, then the length, then the omission flag. -/
def new (bytes : List UInt8) (bytesOmitted : Bool) :
    Except CapturedBytesError (CapturedBytes K) :=
  if hnul : K.allowsNul = false ∧ (0 : UInt8) ∈ bytes then
    .error (.interiorNul (bytes.findIdx (· == 0)))
  else if hlen : bytes.length > K.maximumLen then
    .error (.tooLong bytes.length K.maximumLen)
  else if homitted : bytesOmitted = true then
    -- Only a path can be cut, and then it fills its capacity
    if hpolicy : K.omissionPolicy = .notSupported then
      .error .omissionNotSupported
    else if hfull : bytes.length ≠ K.maximumLen then
      .error (.omissionRequiresFullCapacity bytes.length K.maximumLen)
    else
      .ok ⟨bytes, bytesOmitted, fun hk hmem => hnul ⟨hk, hmem⟩, Nat.le_of_not_lt hlen,
        fun _ => ⟨by cases hp : K.omissionPolicy <;> simp_all, Decidable.not_not.mp hfull⟩⟩
  else
    .ok ⟨bytes, bytesOmitted, fun hk hmem => hnul ⟨hk, hmem⟩, Nat.le_of_not_lt hlen,
      fun h => absurd h homitted⟩

/-- Two captures are equal when their bytes and omission flags are, as `PartialEq`
    compares them. -/
theorem ext {a b : CapturedBytes K} (hbytes : a.bytes = b.bytes)
    (homitted : a.bytesOmitted = b.bytesOmitted) : a = b := by
  cases a; cases b
  simp_all

end CapturedBytes

end Landlock
