import LandlockObservability.Model.PathHandlers
import LandlockObservability.Spec.WireRoundtrip

/-!
# Path capture

What `capture_path` stores is the first 256 bytes of the path, with the flag set exactly when
there were more, for paths of every length.

- `Producer.capturePath_ofPath`
-/

namespace Landlock

/-- What a capture of a NUL-free path is meant to be. -/
def CapturedBytes.ofPath (source : List UInt8) (h : (0 : UInt8) ∉ source) : CapturedPath where
  bytes := source.take 256
  bytesOmitted := decide (256 < source.length)
  nulFree := fun _ hmem => h (List.mem_of_mem_take hmem)
  lengthLe := by
    rw [List.length_take]
    exact Nat.min_le_left _ _
  omission := by
    intro homitted
    have hlt : 256 < source.length := of_decide_eq_true homitted
    refine ⟨rfl, ?_⟩
    rw [List.length_take]
    exact Nat.min_eq_left hlt.le

namespace Producer

/-- What `capture_path` stores for a NUL-free path is the captured path: its first 256 bytes,
    with the flag set when there are more. -/
theorem capturePath_ofPath (source : List UInt8) (h : (0 : UInt8) ∉ source) :
    capturePath (some source) = some (pathname (.ofPath source h),
      (CapturedBytes.ofPath source h).bytesOmitted) := by
  simp only [capturePath, probeReadKernelStr, Option.map_some, pathname, CapturedBytes.ofPath,
    List.drop_replicate, List.length_append, List.length_take, List.length_singleton,
    Option.some.injEq, Prod.mk.injEq, decide_eq_decide]
  constructor
  · by_cases hle : source.length ≤ 256
    -- The whole string fits, and zeros fill the rest
    · rw [List.take_of_length_le (by omega : source.length ≤ 257), List.take_of_length_le hle,
        List.append_assoc, List.take_append, List.take_of_length_le hle]
      congr 1
      have hzeros : ([0] : List UInt8) ++ List.replicate (258 - (min 257 source.length + 1)) 0 =
          List.replicate (258 - source.length) 0 := by
        have hcount : 258 - source.length = (258 - (min 257 source.length + 1)) + 1 := by omega
        rw [hcount, List.replicate_succ]
        rfl
      rw [hzeros, List.take_replicate]
      congr 1
      omega
    -- The member ends before the NUL of the read
    · have hmin : min 256 source.length = 256 := by omega
      rw [hmin, List.append_assoc, List.take_append_of_le_length (by
        rw [List.length_take]
        omega), List.take_take]
      simp
  · omega

/-- The decoder inverts the producer. -/
theorem decode_encode (en : Endian) (event : Event) :
    Wire.decode en (encode en event) = .ok event :=
  (Wire.decode_eq_ok_iff en).mpr ⟨length_encode en event, holds_encode en event⟩

end Producer

end Landlock
