import KwinApi.Lib.ByteOrder
import KwinApi.Lib.Framing

/-!
# The socket protocol: constants and errors

The frozen constants of `protocol.hpp`, the errors its functions report, and the wire format of a
frame: a `uint32` in the byte order of the host, then as many payload bytes.

Lengths and capacities are `size_t` in the source and `ℕ` here. They stay below the capacity of a
buffer that was allocated, so no `size_t` sum wraps; the two `uint32_t` counters of the decoder are
kept as `UInt32`.

## Main definitions

* `KwinApi.wireHeader` — the frame header, as a header format of `Framing`
* `KwinApi.Legal` — the announced lengths a frame may carry
* `KwinApi.Span` — a range of a buffer that the code hands to a memory or system call
-/

namespace KwinApi

/-- The longest payload of one message: 1 MB, decimal. -/
def kMaxMessageLen : ℕ := 1000000

/-- The size of the length prefix. -/
def kHeaderLen : ℕ := 4

/-- The default capacity of a buffer: 16 MB, decimal. -/
def kDefaultBufferCap : ℕ := 16000000

/-- The capacity of a buffer for a configured value, of which 0 stands for the default. -/
def effectiveCap (cap : ℕ) : ℕ := if cap = 0 then kDefaultBufferCap else cap

theorem effectiveCap_lt {cap : ℕ} (h : cap < 2 ^ 33) : effectiveCap cap < 2 ^ 33 := by
  rw [effectiveCap]
  split_ifs
  · decide
  · exact h

/-- The error numbers the modelled code tells apart. `EWOULDBLOCK` is `EAGAIN`. -/
inductive Errno where
  | EAGAIN
  | EINTR
  | EBADF
  | EBUSY
  | EINVAL
  | EMSGSIZE
  | ENOBUFS
  | ENOTCONN
  | other (code : ℕ)
  deriving DecidableEq, Repr

/-- A range of a buffer: `len` bytes from offset `off` on. The buffers record every range they
hand to `memcpy`, `memmove`, `send` or `read` and every byte they store, so that staying inside
the buffer is a statement about the record. -/
structure Span where
  off : ℕ
  len : ℕ
  deriving DecidableEq, Repr

/-- The range lies inside a buffer of `capacity` bytes. -/
def Span.Within (capacity : ℕ) (s : Span) : Prop := s.off + s.len ≤ capacity

/-- The frame header: a `uint32` in the byte order of the host. -/
def wireHeader (bo : ByteOrder) : Framing.Header UInt8 where
  width := kHeaderLen
  announced := bo.decode
  width_pos := by decide

@[simp] theorem wireHeader_width (bo : ByteOrder) : (wireHeader bo).width = 4 := rfl

@[simp] theorem wireHeader_announced (bo : ByteOrder) (h : List UInt8) :
    (wireHeader bo).announced h = bo.decode h := rfl

/-- A length a frame may announce: neither empty nor above the single-message maximum. -/
def Legal (n : ℕ) : Prop := 1 ≤ n ∧ n ≤ kMaxMessageLen

instance (n : ℕ) : Decidable (Legal n) := inferInstanceAs (Decidable (_ ∧ _))

/-- The frame a payload travels in. -/
def frameBytes (bo : ByteOrder) (payload : List UInt8) : List UInt8 :=
  bo.encode kHeaderLen payload.length ++ payload

end KwinApi
