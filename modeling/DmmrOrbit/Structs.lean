import Mathlib.Algebra.GroupWithZero.Nat
import Mathlib.Data.List.Basic
import Mathlib.Data.UInt

/-!
# The records of the program

The constants of `mtu_config.h`, the enumerations of `enums.h` and the records of `structs.h`, as
far as some modelled function reads or writes them.

Fixed-width integers keep their width where they are only stored and compared (`UInt16`,
`UInt32`, `UInt64`); the counters that the program does arithmetic on are natural numbers, and the
functions that compute with them write the reduction modulo `2 ^ 16` or `2 ^ 32` out.  A byte array
is the list of its bytes, and `overlay` is what a copy to the start of such an array does.

Pointers are names of what they point at.  `struct node *` into the node pool is an index, and
`CbPtr` names the places a `union protocol_base_cb *` can point to.  `struct tcp_node` and
`struct udp_node` hold the same fields — `tcp_node` has one more, `parent`, which nothing reads —
so the union of the two is the one record `ProtocolBaseCb`, with its `proto` tag an ordinary field:
nothing in the program keeps the tag in step with how the rest of the union was filled.
-/

set_option autoImplicit false

namespace DmmrOrbit

/-- `EOF`, which the functions of the program return for an error. -/
def eof : ℤ := -1

/-! ## `mtu_config.h` -/

/-- The MTU profiles the header compiles with.  The third one, `MTU_PROFILE_MINIMAL`, leaves
`576 - 80` bytes of payload, which its own static assertion rejects. -/
inductive MtuProfile
  | mtu1500
  | jumbo
  deriving DecidableEq, Repr

namespace MtuProfile

def defaultMtu : MtuProfile → ℕ
  | mtu1500 => 1500
  | jumbo => 9000

/-- `MAX_HEADER_OVERHEAD`. -/
def maxHeaderOverhead : ℕ := 80

/-- `VALUE_BUFFER_SIZE`: the payload bytes of one node. -/
def valueBufferSize (mtu : MtuProfile) : ℕ := mtu.defaultMtu - maxHeaderOverhead

/-- `VALUE_OUTPUT_SIZE`: the nodes of one vectored send. -/
def valueOutputSize : ℕ := 6

/-- `VALUE_OUTPUT_BUFFER_SIZE`: the bytes that make a session flush its pool. -/
def valueOutputBufferSize (mtu : MtuProfile) : ℕ := mtu.valueBufferSize * valueOutputSize

end MtuProfile

/-! ## `enums.h` -/

/-- `proto_t`. -/
inductive Proto
  | none
  | udp
  | tcp
  deriving DecidableEq, Repr, Inhabited

/-- `proto_arr_t`, the second index of the session table. -/
inductive ProtoArr
  | udp
  | tcp
  deriving DecidableEq, Repr

/-- `ezp_addr_type`. -/
inductive EzpAddrType
  | dns
  | ipv4
  | ipv6
  | invalid
  deriving DecidableEq, Repr, Inhabited

/-! ## `structs.h` -/

/-- An array after `new` has been copied to its start. -/
def overlay {α : Type} (new old : List α) : List α := new ++ old.drop new.length

theorem take_overlay {α : Type} (new old : List α) : (overlay new old).take new.length = new := by
  simp [overlay]

theorem take_overlay_of_length {α : Type} {new old : List α} {k : ℕ} (h : new.length = k) :
    (overlay new old).take k = new := by
  rw [← h, take_overlay]

theorem length_overlay {α : Type} {new old : List α} (h : new.length ≤ old.length) :
    (overlay new old).length = old.length := by
  simp [overlay]; omega

/-- `struct node`: one received datagram or segment. -/
structure Node where
  arrival : UInt64
  deadline : UInt64
  valueSize : UInt32
  port : UInt16
  family : EzpAddrType
  fd : Int
  /-- `struct sockaddr_in6 ipv6`, as bytes. -/
  ipv6 : List UInt8
  /-- `struct sockaddr ipv4`, as bytes. -/
  ipv4 : List UInt8
  value : List UInt8
  deriving DecidableEq, Repr, Inhabited

/-- The node `calloc` and `__mset(p, 0, sizeof(struct node))` leave behind. -/
def Node.zero (mtu : MtuProfile) : Node where
  arrival := 0
  deadline := 0
  valueSize := 0
  port := 0
  family := .dns
  fd := 0
  ipv6 := List.replicate 28 0
  ipv4 := List.replicate 16 0
  value := List.replicate mtu.valueBufferSize 0

/-- The bytes an `iovec` over the node covers: `value_size` of them from the start of `value`.
Past the array, which only a `value_size` above `VALUE_BUFFER_SIZE` reaches, they read as zero
here. -/
def Node.payload (n : Node) : List UInt8 :=
  (List.range n.valueSize.toNat).map fun i ↦ n.value.getD i 0

@[simp] theorem Node.length_payload (n : Node) : n.payload.length = n.valueSize.toNat := by
  simp [payload]

/-- `struct node_buffer`: a receive slot.  The status byte is only ever tested for zero. -/
structure NodeBuffer where
  nodeBufferStatus : Bool
  node : Node

/-- A manager has slots, and its indices wrap. -/
instance neZeroSlots : NeZero 256 := ⟨by decide⟩

/-- `struct node_recv_manager`: the 256 receive slots of one socket and two `uint8_t` indices. -/
structure NodeRecvManager where
  nextFreeIndex : Fin 256
  nextBusyIndex : Fin 256
  buffer : Fin 256 → NodeBuffer

/-- A manager in zeroed memory. -/
def NodeRecvManager.zero (mtu : MtuProfile) : NodeRecvManager where
  nextFreeIndex := 0
  nextBusyIndex := 0
  buffer _ := ⟨false, .zero mtu⟩

/-- The places a `union protocol_base_cb *` points to: an element of `cap`, an element of the
`tcp_pool` (by a cast) or the session of a table entry. -/
inductive CbPtr
  | cap (i : ℕ)
  | tcp (i : ℕ)
  | session (port : UInt16) (proto : ProtoArr)
  deriving DecidableEq, Repr

/-- `union protocol_base_cb`, `struct tcp_node` and `struct udp_node`. -/
structure ProtocolBaseCb where
  proto : Proto
  run : Bool
  nodeCount : UInt32
  /-- `struct node *node`: the connection's node in the node pool. -/
  node : Option ℕ
  nodeCfg : Node
  linked : Option CbPtr
  recvManager : NodeRecvManager

/-- The union in zeroed memory. -/
def ProtocolBaseCb.zero (mtu : MtuProfile) : ProtocolBaseCb where
  proto := .none
  run := false
  nodeCount := 0
  node := none
  nodeCfg := .zero mtu
  linked := none
  recvManager := .zero mtu

abbrev TcpNode := ProtocolBaseCb

abbrev UdpNode := ProtocolBaseCb

/-- `struct session_connection_pool`, with cells of type `α` in the array that `pool` points to.
`cursor` is the index of a ring entry. -/
structure SessionConnectionPool (α : Type) where
  run : Bool
  port : UInt16
  linkedPort : UInt16
  poolSize : ℕ
  poolCount : ℕ
  pool : List α
  cursor : Option ℕ
  session : ProtocolBaseCb

/-- The entry in zeroed memory. -/
def SessionConnectionPool.zero {α : Type} (mtu : MtuProfile) : SessionConnectionPool α where
  run := false
  port := 0
  linkedPort := 0
  poolSize := 0
  poolCount := 0
  pool := []
  cursor := none
  session := .zero mtu

/-- `struct scheduler_connection`, without its pointer to the session. -/
structure SchedulerConnection where
  lastActiveTimeUs : UInt64
  realtimeDeadlineUs : UInt64
  deadlineUs : UInt64
  deriving DecidableEq, Repr

end DmmrOrbit
