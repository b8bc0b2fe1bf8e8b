import DmmrOrbit.Socket.Send
import DmmrOrbit.Socket.Service
import DmmrOrbit.Socket.UdpReceiver

/-!
# The address of a UDP reply

`receiver_thread` notes the peer of a datagram in its node, and `udp_send_to_client` makes of the
first node of a batch the `msg_name` for `sendmsg`.  The union it builds the address in is a local
variable without an initialiser, and the three assignments leave out `sin_zero` in the one case and
`sin6_flowinfo` and `sin6_scope_id` in the other; of the scope not even the node has a note.

The functions are stated for cells of any kind.  With bytes for cells they compute what is sent
(`msgName_eq`); with `Option UInt8` they tell what was ever written to, and some of the name never
is.
-/

set_option autoImplicit false

namespace DmmrOrbit

/-! ## Byte order -/

/-- The two conversions undo each other. -/
theorem htons_ntohs (x : UInt16) : htons (ntohs x) = x := by
  rw [htons, ntohs, ← UInt16.toBitVec_inj]
  show ((x.toBitVec <<< 8 ||| x.toBitVec >>> 8) <<< 8 |||
    (x.toBitVec <<< 8 ||| x.toBitVec >>> 8) >>> 8 : BitVec 16) = x.toBitVec
  refine BitVec.eq_of_getLsbD_eq fun i hi ↦ ?_
  have hbig : x.toBitVec.getLsbD (8 + (8 + i)) = false := x.toBitVec.getLsbD_of_ge _ (by omega)
  have hget : x.toBitVec.getLsbD i = x.toBitVec[i] := BitVec.getLsbD_eq_getElem hi
  by_cases h : i < 8
  · simp [h, show ¬ 8 + i < 8 by omega, show 8 + i < 16 by omega, hbig, hget]
  · simp [h, show i - 8 < 8 by omega, show 8 + (i - 8) = i by omega, show ¬ 8 + i < 16 by omega,
      hi, hbig]

/-! ## Storage -/

section Storage

variable {β : Type}

/-- Memory after an assignment to the bytes from `off` on. -/
def writeAt (mem : List β) (off : ℕ) (new : List β) : List β :=
  mem.take off ++ overlay new (mem.drop off)

/-- Two assignments of two cells at the start, and a third one `k` cells behind them. -/
theorem writeAt_writeAt_writeAt (mem c : List β) {a b : List β} (ha : a.length = 2)
    (hb : b.length = 2) (k : ℕ) : writeAt (writeAt (writeAt mem 0 a) 2 b) (4 + k) c =
      a ++ b ++ (mem.drop 4).take k ++ c ++ mem.drop (4 + k + c.length) := by
  have hlen : (a ++ b).length = 4 := by rw [List.length_append, ha, hb]
  have hab : writeAt (writeAt mem 0 a) 2 b = a ++ b ++ mem.drop 4 := by
    simp [writeAt, overlay, List.drop_drop, ha, hb]
  have htake (rest : List β) : (a ++ b ++ rest).take (4 + k) = a ++ b ++ rest.take k := by
    rw [List.take_append, List.take_of_length_le (by omega), hlen, Nat.add_sub_cancel_left]
  have hdrop (rest : List β) : (a ++ b ++ rest).drop (4 + k) = rest.drop k := by
    rw [List.drop_append, List.drop_eq_nil_of_le (by omega), hlen, Nat.add_sub_cancel_left,
      List.nil_append]
  rw [hab, writeAt, overlay, htake, hdrop, List.drop_drop, List.drop_drop, ← List.append_assoc,
    Nat.add_assoc]

end Storage

/-! ## `udp_send_to_client` -/

section Message

variable {β : Type}

/-- The union `dest_addr` once it is filled: `stack` is what the 28 cells held before, and `byte`
what a cell holds after a byte has been stored there. -/
def destAddr (byte : UInt8 → β) (stack : List β) (n : Node) : List β :=
  if n.family = .ipv4 then
    let dest := writeAt stack 0 ((memory16 EzpAddrType.ipv4.saFamily).map byte)
    let dest := writeAt dest 2 ((memory16 (htons n.port)).map byte)
    writeAt dest 4 ((n.ipv4.take 4).map byte)
  else
    let dest := writeAt stack 0 ((memory16 EzpAddrType.ipv6.saFamily).map byte)
    let dest := writeAt dest 2 ((memory16 (htons n.port)).map byte)
    writeAt dest 8 ((n.ipv6.take 16).map byte)

/-- What `sendmsg` is given. -/
structure MsgHdr (β : Type) where
  fd : ℤ
  msgName : List β
  msgIov : List (List UInt8)

/-- `udp_send_to_client` up to the call of `sendmsg`, which it makes unless it returns `EOF`. -/
def udpMsg (byte : UInt8 → β) (stack : List β) (n : List Node) (nLen : ℕ) : Option (MsgHdr β) :=
  match n with
  | [] => none
  | n₀ :: _ =>
    if nLen = 0 then none
    else some
      { fd := n₀.fd
        msgName := (destAddr byte stack n₀).take n₀.family.sockAddrSize
        msgIov := iovs n (if nLen > 6 then 6 else nLen) }

/-- What the socket accepts is from the message. -/
theorem udpSendToClient_eq (byte : UInt8 → β) (stack : List β) (n : List Node) (nLen : ℕ)
    (r : SendResult) : (udpSendToClient n nLen r).2 =
      ((udpMsg byte stack n nLen).map fun msg ↦ msg.msgIov.flatten.take r.accepted).getD [] := by
  rw [udpSendToClient, sendToClient]
  cases n with
  | nil => split <;> simp [udpMsg, iovs]
  | cons n₀ rest => by_cases h : nLen = 0 <;> simp [udpMsg, h]

theorem length_map_memory16 (byte : UInt8 → β) (x : UInt16) :
    ((memory16 x).map byte).length = 2 :=
  List.length_map ..

/-- **The name for an IPv4 address**: the last eight cells are as they were. -/
theorem msgName_ipv4 (byte : UInt8 → β) (stack : List β) {n : Node} (hn : n.family = .ipv4)
    {addr : List UInt8} (ha : n.ipv4.take 4 = addr) (hlen : addr.length = 4) :
    (destAddr byte stack n).take 16 =
      (memory16 EzpAddrType.ipv4.saFamily ++ memory16 (htons n.port) ++ addr).map byte ++
        (stack.drop 8).take 8 := by
  have h := writeAt_writeAt_writeAt stack (addr.map byte)
    (length_map_memory16 byte EzpAddrType.ipv4.saFamily) (length_map_memory16 byte (htons n.port)) 0
  rw [List.take_zero, List.append_nil, List.length_map, hlen] at h
  rw [destAddr, if_pos hn, ha]
  simp only [h, List.map_append]
  rw [List.take_append, List.take_of_length_le (by simp [memory16, hlen])]
  simp [memory16, hlen]

/-- **The name for an IPv6 address**: four cells in the middle and the last four are as they
were. -/
theorem msgName_ipv6 (byte : UInt8 → β) {stack : List β} (hstack : stack.length = 28) {n : Node}
    (hn : n.family ≠ .ipv4) {addr : List UInt8} (ha : n.ipv6.take 16 = addr)
    (hlen : addr.length = 16) : (destAddr byte stack n).take 28 =
      (memory16 EzpAddrType.ipv6.saFamily ++ memory16 (htons n.port)).map byte ++
        (stack.drop 4).take 4 ++ addr.map byte ++ stack.drop 24 := by
  have h := writeAt_writeAt_writeAt stack (addr.map byte)
    (length_map_memory16 byte EzpAddrType.ipv6.saFamily) (length_map_memory16 byte (htons n.port)) 4
  rw [List.length_map, hlen] at h
  rw [destAddr, if_neg hn, ha]
  simp only [h, List.map_append]
  exact List.take_of_length_le (by simp [memory16, hlen, hstack])

end Message

/-! ## The reply to a datagram -/

namespace SockAddr

/-- `sin6_scope_id`; an IPv4 address has none. -/
def scope : SockAddr → Option (Bytes 4)
  | inet _ _ _ => none
  | inet6 _ _ _ scope => some scope

/-- The fields that `receiver_thread` reads. -/
def clientAddr (a : SockAddr) : ClientAddr := ⟨a.port, a.addr⟩

theorem length_addr (a : SockAddr) : a.addr.length = if a.family = .ipv4 then 4 else 16 := by
  cases a with
  | inet port addr zero => exact addr.length_eq
  | inet6 port flowinfo addr scope => exact addr.length_eq

/-- The address that the assignments leave where `stack` was. -/
def onStack (stack : Bytes 28) : SockAddr → SockAddr
  | inet port addr _ => inet port addr
      ⟨(stack.toList.drop 8).take 8, by simp [stack.length_eq]⟩
  | inet6 port _ addr _ => inet6 port ⟨(stack.toList.drop 4).take 4, by simp [stack.length_eq]⟩
      addr ⟨stack.toList.drop 24, by simp [stack.length_eq]⟩

end SockAddr

/-- A datagram with data as `recvmsg` reports it, with what `receiver_thread` has at hand.  The
peer has an address of the family of the socket. -/
structure Reception (mtu : MtuProfile) where
  node : UdpNode
  slot : Node
  peer : SockAddr
  family_eq : node.nodeCfg.family = peer.family
  payload : List UInt8
  payload_ne_nil : payload ≠ []
  length_le : payload.length ≤ mtu.valueBufferSize
  monotonic : Option Timespec
  realtime : Option Timespec

/-- The name is a socket address with every byte initialised, and it is that of the peer. -/
def Names (peer : SockAddr) (msgName : List (Option UInt8)) : Prop :=
  ∃ dest : SockAddr, msgName = dest.toBytes.map some ∧ dest.family = peer.family ∧
    dest.port = peer.port ∧ dest.addr = peer.addr ∧ dest.scope = peer.scope

namespace Reception

variable {mtu : MtuProfile} (r : Reception mtu)

/-- The node that the callback is handed. -/
def stamped : Node :=
  fillNode r.node ⟨r.peer.clientAddr, r.payload, r.length_le⟩ r.monotonic r.realtime r.slot

/-- A datagram from `peer` comes out of a turn of the receiver as such a node, behind the nodes of
the slots lost before. -/
theorem drained_stamped {s t : UdpReceiver mtu} {q : List (Fin 256)} (h : s.Inv q)
    {peer : SockAddr} (hfamily : s.node.nodeCfg.family = peer.family) {d : Datagram mtu}
    (hpeer : d.peer = peer.clientAddr) (hd : d.payload.length ≠ 0) {mono real : Option Timespec}
    (hs : receiverStep s (.datagram d mono real) = some t) :
    ∃ r : Reception mtu, r.peer = peer ∧ r.payload = d.payload ∧
      ∃ stale : List Node, stale.length = q.length ∧
        t.drained = s.drained ++ stale ++ [r.stamped] := by
  obtain ⟨-, -, -, -, stale, slot, hstale, hdrained⟩ := h.data_step hd hs
  obtain ⟨_, payload, hle⟩ := d
  subst hpeer
  exact ⟨⟨s.node, slot, peer, hfamily, payload, fun h' ↦ hd (by simp [h']), hle, mono, real⟩,
    rfl, rfl, stale, hstale, hdrained⟩

/-- A batch that starts with the stamped node goes to the peer.  Nothing is initialised in the
cells that the address is built in. -/
def RepliedTo (rest : List Node) : Prop :=
  ∃ msg, udpMsg some (List.replicate 28 none) (r.stamped :: rest) (rest.length + 1) = some msg ∧
    Names r.peer msg.msgName

theorem family_stamped : r.stamped.family = r.peer.family := by
  rw [← r.family_eq, stamped, fillNode]
  split <;> rfl

theorem htons_port_stamped : htons r.stamped.port = r.peer.port := by
  rw [← htons_ntohs r.peer.port, stamped, fillNode]
  split <;> rfl

theorem take_ipv4_stamped (h : r.peer.family = .ipv4) : r.stamped.ipv4.take 4 = r.peer.addr := by
  have hlen : r.peer.addr.length = 4 := by rw [r.peer.length_addr, if_pos h]
  rw [stamped, fillNode, if_pos (r.family_eq.trans h)]
  exact take_overlay_of_length hlen

theorem take_ipv6_stamped (h : r.peer.family ≠ .ipv4) : r.stamped.ipv6.take 16 = r.peer.addr := by
  have hlen : r.peer.addr.length = 16 := by rw [r.peer.length_addr, if_neg h]
  rw [stamped, fillNode, if_neg fun h' ↦ h (r.family_eq.symm.trans h')]
  exact take_overlay_of_length hlen

section Name

variable {β : Type} (byte : UInt8 → β) {stack : List β}

theorem msgName_stamped_ipv4 (h : r.peer.family = .ipv4) :
    (destAddr byte stack r.stamped).take r.stamped.family.sockAddrSize =
      (memory16 EzpAddrType.ipv4.saFamily ++ memory16 r.peer.port ++ r.peer.addr).map byte ++
        (stack.drop 8).take 8 := by
  have hfamily : r.stamped.family = .ipv4 := r.family_stamped.trans h
  have hlen : r.peer.addr.length = 4 := by rw [r.peer.length_addr, if_pos h]
  rw [← r.htons_port_stamped, ← msgName_ipv4 byte stack hfamily (r.take_ipv4_stamped h) hlen,
    hfamily]
  rfl

theorem msgName_stamped_ipv6 (hstack : stack.length = 28) (h : r.peer.family ≠ .ipv4) :
    (destAddr byte stack r.stamped).take r.stamped.family.sockAddrSize =
      (memory16 EzpAddrType.ipv6.saFamily ++ memory16 r.peer.port).map byte ++
        (stack.drop 4).take 4 ++ r.peer.addr.map byte ++ stack.drop 24 := by
  have hfamily : r.stamped.family ≠ .ipv4 := fun h' ↦ h (r.family_stamped.symm.trans h')
  have hlen : r.peer.addr.length = 16 := by rw [r.peer.length_addr, if_neg h]
  rw [← r.htons_port_stamped,
    ← msgName_ipv6 byte hstack hfamily (r.take_ipv6_stamped h) hlen, EzpAddrType.sockAddrSize,
    if_neg hfamily]

end Name

/-- **The bytes of the name**: family, port and address are those of the peer, and the rest is
what the stack held. -/
theorem msgName_eq (stack : Bytes 28) (rest : List Node) :
    (udpMsg id stack.toList (r.stamped :: rest) (rest.length + 1)).map MsgHdr.msgName =
      some (r.peer.onStack stack).toBytes := by
  rw [udpMsg, if_neg (by omega), Option.map_some]
  congr 1
  by_cases h : r.peer.family = .ipv4
  · refine (r.msgName_stamped_ipv4 id h).trans ?_
    cases hp : r.peer with
    | inet port addr zero => simp [SockAddr.onStack, SockAddr.toBytes, SockAddr.port, SockAddr.addr]
    | inet6 port flowinfo addr scope => simp [hp, SockAddr.family] at h
  · refine (r.msgName_stamped_ipv6 id stack.length_eq h).trans ?_
    cases hp : r.peer with
    | inet port addr zero => simp [hp, SockAddr.family] at h
    | inet6 port flowinfo addr scope =>
      simp [SockAddr.onStack, SockAddr.toBytes, SockAddr.port, SockAddr.addr]

/-- Some of the name is never assigned to. -/
theorem none_mem_msgName {rest : List Node} {msg : MsgHdr (Option UInt8)}
    (h : udpMsg some (List.replicate 28 none) (r.stamped :: rest) (rest.length + 1) = some msg) :
    none ∈ msg.msgName := by
  rw [udpMsg, if_neg (by omega), Option.some.injEq] at h
  subst h
  show none ∈ (destAddr some _ r.stamped).take r.stamped.family.sockAddrSize
  by_cases h : r.peer.family = .ipv4
  · rw [r.msgName_stamped_ipv4 some h]
    simp
  · rw [r.msgName_stamped_ipv6 some List.length_replicate h]
    simp

end Reception

theorem Names.none_notMem {peer : SockAddr} {msgName : List (Option UInt8)}
    (h : Names peer msgName) : none ∉ msgName := by
  obtain ⟨dest, rfl, -⟩ := h
  intro hnone
  obtain ⟨b, -, hb⟩ := List.mem_map.1 hnone
  cases hb

/-- **No reply has a whole address**: whoever the peer is, the name that `sendmsg` is given has
bytes that nothing was assigned to. -/
theorem Reception.not_repliedTo {mtu : MtuProfile} (r : Reception mtu) (rest : List Node) :
    ¬ r.RepliedTo rest := by
  rintro ⟨msg, hmsg, hnames⟩
  exact hnames.none_notMem (r.none_mem_msgName hmsg)

/-- A byte from `fe80::1` on link 3. -/
def linkLocal : Reception .mtu1500 where
  node := { ProtocolBaseCb.zero .mtu1500 with
    proto := .udp, run := true, nodeCfg := { Node.zero .mtu1500 with family := .ipv6, fd := 4 } }
  slot := .zero .mtu1500
  peer := .inet6 (htons 5000) ⟨[0, 0, 0, 0], rfl⟩
    ⟨[0xfe, 0x80, 0, 0, 0, 0, 0, 0, 0, 0, 0, 0, 0, 0, 0, 1], rfl⟩ ⟨[3, 0, 0, 0], rfl⟩
  family_eq := rfl
  payload := [1]
  payload_ne_nil := by simp
  length_le := by decide
  monotonic := none
  realtime := none

/-- The reply to it is not complete; over zeroed cells it would have the scope 0. -/
theorem linkLocal_not_repliedTo : ¬ linkLocal.RepliedTo [] ∧
    ((udpMsg id (Bytes.zero 28).toList [linkLocal.stamped] 1).map MsgHdr.msgName =
        some (linkLocal.peer.onStack (.zero 28)).toBytes ∧
      (linkLocal.peer.onStack (.zero 28)).scope ≠ linkLocal.peer.scope) := by
  refine ⟨?_, linkLocal.msgName_eq (.zero 28) [], by decide⟩
  rintro ⟨msg, hmsg, hnames⟩
  exact hnames.none_notMem (linkLocal.none_mem_msgName hmsg)

end DmmrOrbit
