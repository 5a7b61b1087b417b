import LandlockObservability.Model.Producer

/-!
# Records with a path

Models `capture_path` of `src/bpf/landlock_observability.bpf.c` and what the handlers
`handle_add_rule_path_beneath` and `handle_deny_access_fs` do with it, with what can fail: the
reservation of a record and the read of the path.  A handler's result is the list of the
records that it submits.

`bpf_probe_read_kernel_str` is modelled by what it is assumed to do.
-/

namespace Landlock.Producer

open Layout Wire

/-- `bpf_probe_read_kernel_str(dst, size, source)`: the bytes that are written to `dst`.  Their
    number is the result; `none` is a negative result, for memory that cannot be read. -/
def probeReadKernelStr (size : Nat) (source : Option (List UInt8)) : Option (List UInt8) :=
  source.map fun string => string.take (size - 1) ++ [0]

/-- `capture_path`: what is stored in the record, or `none` where the source returns 0. -/
def capturePath (source : Option (List UInt8)) : Option (List UInt8 × Bool) :=
  -- A zeroed buffer of two bytes more than the member
  let buffer := List.replicate 258 0
  match probeReadKernelStr 258 source with
  | none => none
  | some written =>
    let buffer := written ++ buffer.drop written.length
    -- The result of the read counts the NUL, so that 257 still fits without it
    some (buffer.take 256, decide (written.length > 257))

/-- `alloc_event`: a zeroed record, if there is room for one. -/
def allocEvent (room : Bool) : Option (List UInt8) :=
  if room then some (List.replicate sizeOf 0) else none

/-- The end of both handlers: the path is captured last, and a failure discards the record. -/
def submitWithPath (kind : EventKind) (record : List UInt8) (fields : List (Member × List UInt8))
    (source : Option (List UInt8)) : List (List UInt8) :=
  match capturePath source with
  | none => []
  | some (bytes, omitted) =>
    [fill (slots kind) record
      (fields ++ [(.pathname, bytes), (.pathnameBytesOmitted, boolean omitted)])]

end Landlock.Producer
