import DmmrOrbit.Structs

/-!
# What the kernel reports

The values the socket threads get from the system: peer addresses, clock readings, error numbers.
The kernel's side of the calls is not modelled; what a call returned is an input of the functions
that use it.
-/

set_option autoImplicit false

namespace DmmrOrbit

/-- `ntohs` on a little-endian host. -/
def ntohs (x : UInt16) : UInt16 := (x <<< 8) ||| (x >>> 8)

/-- The peer address the kernel stores through `msg_name` or `accept`: `sin_port` and `sin_addr`,
or `sin6_port` and `sin6_addr`, both in network byte order. -/
structure ClientAddr where
  port : UInt16
  addr : List UInt8
  deriving DecidableEq, Repr, Inhabited

/-- `struct timespec`. -/
structure Timespec where
  tvSec : ℕ
  tvNsec : ℕ
  deriving DecidableEq, Repr, Inhabited

/-- `(uint64_t)tv_sec * 1000000000ULL + tv_nsec`. -/
def Timespec.nanos (ts : Timespec) : UInt64 := UInt64.ofNat (ts.tvSec * 1000000000 + ts.tvNsec)

/-- The error numbers the socket code tells apart. -/
inductive Errno
  | eagain
  | eintr
  | epipe
  | econnreset
  | ebadf
  | enotconn
  | other (code : ℕ)
  deriving DecidableEq, Repr

/-- The errors after which a read or a send may be tried again. -/
def Errno.temporary : Errno → Bool
  | eagain => true
  | eintr => true
  | _ => false

end DmmrOrbit
