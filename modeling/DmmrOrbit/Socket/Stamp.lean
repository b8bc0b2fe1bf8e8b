import DmmrOrbit.Session.SessionPool
import DmmrOrbit.Socket.UdpReceiver

/-!
# Stamping a node with its peer

Three places note in a node where it comes from: `receiver_thread` for a datagram, `accept_thread`
for a connection it has accepted and `connect_tcp_server` for one it has made.  All of them copy the
bare address, `sin_addr` or `sin6_addr`, to the *start* of the node's `ipv4` or `ipv6`, whereas
`node_cmp` reads these fields as a `struct sockaddr_in` or `struct sockaddr_in6` and compares what
stands 4 or 8 bytes further on.  So of an IPv4 address it sees nothing but what the slot held
before, and of an IPv6 address the second half and eight such bytes.

`Stamped.agree_iff` says exactly which pairs of stamped nodes `node_cmp` tells apart rightly.
-/

set_option autoImplicit false

namespace DmmrOrbit

/-! ## The assignments of the source -/

/-- `sizeof(struct in_addr)` or `sizeof(struct in6_addr)`, as the test `family == AF_INET`
decides. -/
def EzpAddrType.addrSize (family : EzpAddrType) : ℕ := if family = .ipv4 then 4 else 16

/-- The lines of `accept_thread` that fill the node of a connection: `node` is the listening
`tcp_node`. -/
def acceptNode (node : TcpNode) (clientFd : ℤ) (clientAddr : ClientAddr) (n : Node) : Node :=
  let n := { n with fd := clientFd, family := node.nodeCfg.family }
  if n.family = .ipv4 then
    { n with port := ntohs clientAddr.port, ipv4 := overlay clientAddr.addr n.ipv4 }
  else { n with port := ntohs clientAddr.port, ipv6 := overlay clientAddr.addr n.ipv6 }

/-- The lines of `connect_tcp_server` that do so; `localAddr` is what `getsockname` stored, if it
succeeded. -/
def connectNode (node : TcpNode) (sock : ℤ) (localAddr : Option ClientAddr) (n : Node) : Node :=
  let n := { n with fd := sock, family := node.nodeCfg.family }
  match localAddr with
  | none => n
  | some a =>
    if n.family = .ipv4 then { n with port := ntohs a.port, ipv4 := overlay a.addr n.ipv4 }
    else { n with port := ntohs a.port, ipv6 := overlay a.addr n.ipv6 }

/-! ## Stamped nodes -/

variable {mtu : MtuProfile}

/-- An address as the kernel stores it for a socket of the given family. -/
structure PeerAddr (family : EzpAddrType) extends ClientAddr where
  length_addr : addr.length = family.addrSize

/-- One of the three writers with what it has at hand, for a node whose address was stamped. -/
inductive Stamper (mtu : MtuProfile)
  | receiverThread (node : UdpNode) (peer : PeerAddr node.nodeCfg.family) (payload : List UInt8)
      (length_le : payload.length ≤ mtu.valueBufferSize) (monotonic realtime : Option Timespec)
  | acceptThread (node : TcpNode) (clientFd : ℤ) (clientAddr : PeerAddr node.nodeCfg.family)
  | connectTcpServer (node : TcpNode) (sock : ℤ) (localAddr : PeerAddr node.nodeCfg.family)

namespace Stamper

def fd : Stamper mtu → ℤ
  | receiverThread node _ _ _ _ _ => node.nodeCfg.fd
  | acceptThread _ clientFd _ => clientFd
  | connectTcpServer _ sock _ => sock

def family : Stamper mtu → EzpAddrType
  | receiverThread node _ _ _ _ _ => node.nodeCfg.family
  | acceptThread node _ _ => node.nodeCfg.family
  | connectTcpServer node _ _ => node.nodeCfg.family

/-- The address that is stamped, with its port in network byte order. -/
def peer : Stamper mtu → ClientAddr
  | receiverThread _ peer _ _ _ _ => peer.toClientAddr
  | acceptThread _ _ clientAddr => clientAddr.toClientAddr
  | connectTcpServer _ _ localAddr => localAddr.toClientAddr

theorem length_addr (s : Stamper mtu) : s.peer.addr.length = s.family.addrSize := by
  cases s with
  | receiverThread _ peer _ _ _ _ => exact peer.length_addr
  | acceptThread _ _ clientAddr => exact clientAddr.length_addr
  | connectTcpServer _ _ localAddr => exact localAddr.length_addr

/-- The node that the writer makes of a slot. -/
def fill : Stamper mtu → Node → Node
  | receiverThread node peer payload length_le monotonic realtime =>
    fillNode node ⟨peer.toClientAddr, payload, length_le⟩ monotonic realtime
  | acceptThread node clientFd clientAddr => acceptNode node clientFd clientAddr.toClientAddr
  | connectTcpServer node sock localAddr => connectNode node sock (some localAddr.toClientAddr)

end Stamper

/-- A stamped node: the slot as it was before, with the two arrays of their C sizes, and the
writer. -/
structure Stamped (mtu : MtuProfile) where
  slot : Node
  length_ipv4 : slot.ipv4.length = 16
  length_ipv6 : slot.ipv6.length = 28
  stamper : Stamper mtu

namespace Stamped

def node (a : Stamped mtu) : Node := a.stamper.fill a.slot

/-- The same descriptor, port, family and address. -/
def SamePeer (a b : Stamped mtu) : Prop :=
  a.stamper.fd = b.stamper.fd ∧ ntohs a.stamper.peer.port = ntohs b.stamper.peer.port ∧
    a.stamper.family = b.stamper.family ∧ a.stamper.peer.addr = b.stamper.peer.addr

/-- What is promised of two stamped nodes: `node_cmp` finds no difference between them exactly
when they come from the same peer, and a session whose node is the one does not take the other
from a different peer. -/
structure Agree (a b : Stamped mtu) : Prop where
  cmp : nodeCmp (some a.node) (some b.node) = 0 ↔ a.SamePeer b
  noCrossDelivery : ¬ a.SamePeer b → ∀ (nodePool : ℕ → Node)
    (conn : SessionConnectionPool Node),
    (getSessionNode conn.session).map nodePool = some b.node →
      processSessionNode mtu id nodePool conn a.node = (conn, [])

/-- The pairs that `node_cmp` gets right: those it need not look at the address of, and those
whose addresses are equal if and only if the bytes compared in their place are. -/
def ToldApart (a b : Stamped mtu) : Prop :=
  a.stamper.fd ≠ b.stamper.fd ∨ ntohs a.stamper.peer.port ≠ ntohs b.stamper.peer.port ∨
    a.stamper.family ≠ b.stamper.family ∨
    match a.stamper.family with
    | .ipv4 => (a.slot.ipv4.drop 4).take 4 = (b.slot.ipv4.drop 4).take 4 ↔
        a.stamper.peer.addr = b.stamper.peer.addr
    | .ipv6 => a.stamper.peer.addr.drop 8 = b.stamper.peer.addr.drop 8 ∧
        (a.slot.ipv6.drop 16).take 8 = (b.slot.ipv6.drop 16).take 8 ↔
        a.stamper.peer.addr = b.stamper.peer.addr
    | _ => a.stamper.peer.addr = b.stamper.peer.addr

end Stamped

/-! ## What the writers leave in a node -/

/-- The three writers fill a node alike. -/
theorem Stamper.fill_spec (s : Stamper mtu) (n : Node) :
    (s.fill n).fd = s.fd ∧ (s.fill n).port = ntohs s.peer.port ∧ (s.fill n).family = s.family ∧
      (s.fill n).ipv4 = (if s.family = .ipv4 then overlay s.peer.addr n.ipv4 else n.ipv4) ∧
      (s.fill n).ipv6 = (if s.family = .ipv4 then n.ipv6 else overlay s.peer.addr n.ipv6) := by
  cases s with
  | receiverThread node peer payload length_le monotonic realtime =>
    by_cases h : node.nodeCfg.family = .ipv4 <;> simp [fill, fillNode, fd, family, Stamper.peer, h]
  | acceptThread node clientFd clientAddr =>
    by_cases h : node.nodeCfg.family = .ipv4 <;> simp [fill, acceptNode, fd, family, peer, h]
  | connectTcpServer node sock localAddr =>
    by_cases h : node.nodeCfg.family = .ipv4 <;> simp [fill, connectNode, fd, family, peer, h]

namespace Stamped

/-- The bytes that stand where `node_cmp` expects the address. -/
def compared (a : Stamped mtu) : List UInt8 :=
  match a.stamper.family with
  | .ipv4 => (a.slot.ipv4.drop 4).take 4
  | .ipv6 => a.stamper.peer.addr.drop 8 ++ (a.slot.ipv6.drop 16).take 8
  | _ => []

theorem comparedAddr_node (a : Stamped mtu) : a.node.comparedAddr = a.compared := by
  obtain ⟨-, -, hfam, h4, h6⟩ := a.stamper.fill_spec a.slot
  have hlen := a.stamper.length_addr
  rw [Node.comparedAddr, compared, Stamped.node, hfam, h4, h6]
  cases hf : a.stamper.family with
  | dns => rfl
  | invalid => rfl
  | ipv4 =>
    rw [hf] at hlen
    have hlen : a.stamper.peer.addr.length = 4 := hlen
    simp only [if_true, overlay]
    rw [← hlen, List.drop_left, hlen]
  | ipv6 =>
    rw [hf] at hlen
    have hlen : a.stamper.peer.addr.length = 16 := hlen
    have hdrop : (a.stamper.peer.addr.drop 8).length = 8 := by rw [List.length_drop, hlen]
    simp only [reduceCtorEq, if_false, overlay]
    rw [List.drop_append_of_le_length (by omega), List.take_append, hdrop, hlen,
      List.take_of_length_le (by omega)]

theorem length_compared (a : Stamped mtu) : a.compared.length = match a.stamper.family with
    | .ipv4 => 4
    | .ipv6 => 16
    | _ => 0 := by
  have hlen := a.stamper.length_addr
  rw [compared]
  cases hf : a.stamper.family with
  | dns => rfl
  | invalid => rfl
  | ipv4 => simp [a.length_ipv4]
  | ipv6 =>
    rw [hf] at hlen
    have hlen : a.stamper.peer.addr.length = 16 := hlen
    simp [a.length_ipv6, hlen]

/-- `node_cmp` of two stamped nodes, in terms of what they were stamped with. -/
theorem nodeCmp_node (a b : Stamped mtu) : nodeCmp (some a.node) (some b.node) = 0 ↔
    a.stamper.fd = b.stamper.fd ∧ ntohs a.stamper.peer.port = ntohs b.stamper.peer.port ∧
      a.stamper.family = b.stamper.family ∧ a.compared = b.compared := by
  obtain ⟨hfd, hport, hfam, -⟩ := a.stamper.fill_spec a.slot
  obtain ⟨hfd', hport', hfam', -⟩ := b.stamper.fill_spec b.slot
  rw [← hfd, ← hfd', ← hport, ← hport', ← hfam, ← hfam', ← a.comparedAddr_node,
    ← b.comparedAddr_node]
  refine nodeCmp_eq_zero_iff fun hf ↦ ?_
  have hf : a.stamper.family = b.stamper.family := hfam.symm.trans (hf.trans hfam')
  have hlen : a.compared.length = b.compared.length := by
    rw [a.length_compared, b.length_compared, hf]
  rw [← a.comparedAddr_node, ← b.comparedAddr_node] at hlen
  exact hlen

/-- The bytes compared are equal exactly when the ones that `ToldApart` speaks of are. -/
theorem compared_eq_iff (a b : Stamped mtu) (h : a.stamper.family = b.stamper.family) :
    (a.compared = b.compared ↔ a.stamper.peer.addr = b.stamper.peer.addr) ↔
      match a.stamper.family with
      | .ipv4 => (a.slot.ipv4.drop 4).take 4 = (b.slot.ipv4.drop 4).take 4 ↔
          a.stamper.peer.addr = b.stamper.peer.addr
      | .ipv6 => a.stamper.peer.addr.drop 8 = b.stamper.peer.addr.drop 8 ∧
          (a.slot.ipv6.drop 16).take 8 = (b.slot.ipv6.drop 16).take 8 ↔
          a.stamper.peer.addr = b.stamper.peer.addr
      | _ => a.stamper.peer.addr = b.stamper.peer.addr := by
  have hlen := a.stamper.length_addr
  have hlen' := b.stamper.length_addr
  rw [← h] at hlen'
  rw [compared, compared, ← h]
  cases hf : a.stamper.family with
  | dns => simp
  | invalid => simp
  | ipv4 => exact Iff.rfl
  | ipv6 =>
    rw [hf] at hlen hlen'
    have hdrop : (a.stamper.peer.addr.drop 8).length = (b.stamper.peer.addr.drop 8).length := by
      rw [List.length_drop, List.length_drop, hlen, hlen']
    have happ : a.stamper.peer.addr.drop 8 ++ (a.slot.ipv6.drop 16).take 8 =
          b.stamper.peer.addr.drop 8 ++ (b.slot.ipv6.drop 16).take 8 ↔
        a.stamper.peer.addr.drop 8 = b.stamper.peer.addr.drop 8 ∧
          (a.slot.ipv6.drop 16).take 8 = (b.slot.ipv6.drop 16).take 8 :=
      ⟨fun heq ↦ List.append_inj heq hdrop, fun heq ↦ by rw [heq.1, heq.2]⟩
    exact iff_congr happ Iff.rfl

/-- **Which peers are told apart.**  For any two stamped nodes, whatever their slots held before:
`node_cmp` returns 0 exactly when descriptor, port, family and address are all equal, so that no
session takes a node from another peer, if and only if one of the first three differs or the
addresses are equal exactly when the bytes compared in their place are — of an IPv4 address what
stood behind it in the slots, of an IPv6 address its second half and what stood behind it. -/
theorem agree_iff (a b : Stamped mtu) : a.Agree b ↔ a.ToldApart b := by
  have hcmp := a.nodeCmp_node b
  have hcross : (nodeCmp (some a.node) (some b.node) = 0 ↔ a.SamePeer b) ↔ a.ToldApart b := by
    rw [hcmp, SamePeer, ToldApart]
    by_cases hfd : a.stamper.fd = b.stamper.fd
    · by_cases hport : ntohs a.stamper.peer.port = ntohs b.stamper.peer.port
      · by_cases hfam : a.stamper.family = b.stamper.family
        · rw [← a.compared_eq_iff b hfam]
          simp [hfd, hport, hfam]
        · simp [hfam]
      · simp [hport]
    · simp [hfd]
  rw [← hcross]
  refine ⟨Agree.cmp, fun h ↦ ⟨h, fun hpeer nodePool conn hnode ↦ ?_⟩⟩
  have hnot : ¬ conn.Accepts nodePool (id a.node) := by
    rw [SessionConnectionPool.Accepts, hnode]
    exact fun hzero ↦ hpeer (h.1 hzero)
  rw [processSessionNode, if_neg hnot]

/-- A datagram from port 40000 of 10.0.0.`host`, received on descriptor 3 into a zeroed slot. -/
def datagramFrom (host : UInt8) : Stamped .mtu1500 where
  slot := .zero .mtu1500
  length_ipv4 := List.length_replicate
  length_ipv6 := List.length_replicate
  stamper := .receiverThread
    { ProtocolBaseCb.zero .mtu1500 with
      nodeCfg := { Node.zero .mtu1500 with fd := 3, family := .ipv4 } }
    { port := 0x409C, addr := [10, 0, 0, host], length_addr := rfl } [7] (by decide) none none

/-- The datagrams of 10.0.0.1 and 10.0.0.2 look alike. -/
theorem not_agree_datagramFrom : ¬ (datagramFrom 1).Agree (datagramFrom 2) := by
  intro h
  have hzero : nodeCmp (some (datagramFrom 1).node) (some (datagramFrom 2).node) = 0 :=
    ((datagramFrom 1).nodeCmp_node (datagramFrom 2)).2 ⟨rfl, rfl, rfl, rfl⟩
  have haddr : [10, 0, 0, (1 : UInt8)] = [10, 0, 0, 2] := (h.cmp.1 hzero).2.2.2
  exact absurd haddr (by decide)

end Stamped

end DmmrOrbit
