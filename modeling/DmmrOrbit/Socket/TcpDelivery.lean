import DmmrOrbit.Session.Flush
import DmmrOrbit.Socket.TcpReceiver
import DmmrOrbit.Socket.TcpSetup

/-!
# What a TCP receiver hands to the sessions

`receiver_thread` stamps every node it receives with the peer and two clock readings;
`tcp_receiver_thread` writes `value` and `value_size` and nothing else.  So the node it shows to the
receive callback has the descriptor, port, family, address, arrival and deadline that the receive
slot held before, and `process_session_node`, which compares the first four with the connection's
node, passes over it.

`tcpReceiverThread_delivers_iff` is the exact statement.  The slots are used in turn, so the nodes
that come out right are told by the memory that the connection's `tcp_node` was made of: slot `i`
must have held the connection's identity, and the clock readings of the receive that was to come.
-/

set_option autoImplicit false

namespace DmmrOrbit

open Transition

variable {mtu : MtuProfile}

/-! ## Receives and what is promised of them -/

/-- A connection: the entry of `tcp_pool` and the slot of `node_pool` as they were handed out, and
what was made of them. -/
structure TcpConnection where
  setup : TcpSetup
  memory : TcpNode
  n : ℕ
  slot : Node

namespace TcpConnection

/-- The connection's `tcp_node`. -/
def tn (c : TcpConnection) : TcpNode := c.setup.tcpNode c.n c.memory

/-- The node it points at. -/
def node (c : TcpConnection) : Node := c.setup.node c.slot

end TcpConnection

/-- One turn of the receiver, with what the two clocks would read after its `readv`. -/
structure Receive (mtu : MtuProfile) where
  turn : ReadvTurn mtu
  monotonic : Timespec
  realtime : Timespec

/-- The receiver with one thing more to look back on: the node that its latest turn made available
after a successful `readv`, and the clocks at that receive. -/
structure TcpDelivery (mtu : MtuProfile) where
  receiver : TcpReceiver mtu
  delivered : Option (Node × Timespec × Timespec)

/-- The receiver of a connection at the start of its loop. -/
def TcpDelivery.init (mtu : MtuProfile) (c : TcpConnection) : TcpDelivery mtu :=
  ⟨tcpReceiverThread mtu c.tn, none⟩

/-- A turn of the receiver.  The node is the one in the slot that `get_free_node` returned, as it is
when `on_receive_cb` is called. -/
def tcpDeliveryStep (s : TcpDelivery mtu) (e : Receive mtu) : Option (TcpDelivery mtu) :=
  (tcpReceiverStep s.receiver e.turn).map fun t ↦
    { receiver := t
      delivered := match e.turn.result, t.last, (getFreeNode s.receiver.node.recvManager).1 with
        | .bytes _ _ _, some (_, some m), some pos =>
          some ((m.buffer pos).node, e.monotonic, e.realtime)
        | _, _, _ => none }

/-- The node is the connection's and carries the times of its receive. -/
def Node.StampedFor (n c : Node) (monotonic realtime : Timespec) : Prop :=
  nodeCmp (some n) (some c) = 0 ∧ n.arrival = monotonic.nanos ∧ n.deadline = realtime.nanos

/-- The promise, after a turn: what a successful `readv` made available is stamped, and every
session of the connection that has room for it takes it. -/
structure TcpDelivery.Delivered (c : TcpConnection) (s : TcpDelivery mtu) : Prop where
  stamped : ∀ n monotonic realtime, s.delivered = some (n, monotonic, realtime) →
    n.StampedFor c.node monotonic realtime
  appended : ∀ n monotonic realtime, s.delivered = some (n, monotonic, realtime) →
    ∀ (nodePool : ℕ → Node) (conn : SessionConnectionPool Node),
      (getSessionNode conn.session).map nodePool = some c.node → conn.Wf →
      conn.poolCount < conn.poolSize →
      let out := processSessionNode mtu id nodePool conn n
      (out.2 ++ out.1.live).Perm (conn.live ++ [n])

/-- The receives that come out right, when `next` is the next slot and `busy` slots wait for the
callback: every successful `readv` finds in its slot what the receiver should have stamped. -/
def Foretold (c : TcpConnection) : Fin 256 → ℕ → List (Receive mtu) → Prop
  | _, _, [] => True
  | next, busy, e :: es =>
    if busy < 256 then
      match e.turn.result with
      | .bytes _ _ _ =>
        (c.memory.recvManager.buffer next).node.StampedFor c.node e.monotonic e.realtime ∧
          Foretold c (next + 1) (busy + 1 - e.turn.taken) es
      | .eof => True
      | .error _ => Foretold c (next + 1) (busy + 1 - e.turn.taken) es
    else True

/-! ## One turn -/

theorem getBuzyNode_nextFreeIndex (m : NodeRecvManager) :
    (getBuzyNode m).2.nextFreeIndex = m.nextFreeIndex := by
  rw [getBuzyNode]
  split <;> rfl

theorem drain_nextFreeIndex (fuel : ℕ) (m : NodeRecvManager) :
    (drain fuel m).2.nextFreeIndex = m.nextFreeIndex := by
  induction fuel generalizing m with
  | zero => rfl
  | succ fuel ih =>
    rw [drain, ← getBuzyNode_nextFreeIndex m]
    split
    · next heq => rw [heq]; exact ih _
    · next heq => rw [heq]

/-- Reading into a node keeps its stamp. -/
theorem stamped_readInto (r : Readv mtu) (n c : Node) (monotonic realtime : Timespec) :
    (readInto r n).StampedFor c monotonic realtime ↔ n.StampedFor c monotonic realtime := Iff.rfl

/-- What the receiver keeps: it is in its loop with the slots `q` busy, and no slot has changed but
in its `value` and `value_size`. -/
structure TcpReceiver.Untouched (c : TcpConnection) (s : TcpReceiver mtu) (q : List (Fin 256)) :
    Prop where
  outstanding : Outstanding s.node.recvManager q
  run : s.node.run = true
  live : s.live = true
  noFault : s.fault = false
  slots : ∀ i monotonic realtime,
    (s.node.recvManager.buffer i).node.StampedFor c.node monotonic realtime ↔
      (c.memory.recvManager.buffer i).node.StampedFor c.node monotonic realtime

namespace TcpReceiver.Untouched

variable {c : TcpConnection} {s : TcpReceiver mtu} {q : List (Fin 256)}

theorem init (mtu : MtuProfile) (c : TcpConnection) :
    (tcpReceiverThread mtu c.tn).Untouched c [] := by
  refine ⟨.init _, rfl, rfl, rfl, fun i _ _ ↦ ?_⟩
  rw [tcpReceiverThread, TcpConnection.tn, TcpSetup.tcpNode_recvManager]
  rfl

/-- With every slot busy the turn ends in the use of a null pointer. -/
theorem full_step (h : s.Untouched c q) (hfull : ¬ q.length < 256) (e : ReadvTurn mtu) :
    ∃ t, tcpReceiverStep s e = some t ∧ t.last = none ∧ t.fault = true := by
  have hlen : q.length = 256 := by have := h.outstanding.length_le; omega
  refine ⟨{ s with fault := true, last := none }, ?_, rfl, rfl⟩
  rw [tcpReceiverStep, if_pos (by rw [h.live, h.noFault]; rfl), h.outstanding.getFreeNode_full hlen]

/-- The end of the stream ends the loop. -/
theorem eof_step (h : s.Untouched c q) (hlt : q.length < 256) (taken : ℕ) :
    ∃ t, tcpReceiverStep s ⟨.eof, taken⟩ = some t ∧ t.live = false := by
  obtain ⟨m, hg, -⟩ := h.outstanding.getFreeNode_spec hlt
  rw [tcpReceiverStep, if_pos (by rw [h.live, h.noFault]; rfl), hg]
  exact ⟨_, rfl, rfl⟩

/-- Every other result, a failed one too, is shown to the callback in the next slot. -/
theorem shown_step (h : s.Untouched c q) (hlt : q.length < 256) {e : ReadvTurn mtu}
    (hr : e.result ≠ .eof) :
    ∃ t m pos, tcpReceiverStep s e = some t ∧ t.last = some (e.result, some m) ∧
      (getFreeNode s.node.recvManager).1 = some pos ∧ pos = s.node.recvManager.nextFreeIndex ∧
      (m.buffer pos).node = readInto e.result (s.node.recvManager.buffer pos).node ∧
      t.node.recvManager.nextFreeIndex = pos + 1 ∧
      t.Untouched c ((q ++ [pos]).drop e.taken) := by
  set pos := s.node.recvManager.nextFreeIndex with hpos
  obtain ⟨m, hg, hm, hnode⟩ := h.outstanding.getFreeNode_spec hlt
  have hfree : m.nextFreeIndex = pos + 1 := by
    have heq := hg.symm.trans (h.outstanding.getFreeNode_eq hlt)
    rw [(Prod.mk.inj heq).2]
  have hsize : ¬ (readInto e.result (m.buffer pos).node).valueSize ≤ 0 := by
    obtain ⟨r, taken⟩ := e
    cases r with
    | bytes b hb le => exact (received_readInto hb le _).2
    | eof => exact absurd rfl hr
    | error errno => rw [readInto_error_valueSize]; decide
  obtain ⟨-, hrest, hkeep⟩ :=
    (hm.fill pos (readInto e.result (m.buffer pos).node)).drain_spec e.taken
  have hstep : tcpReceiverStep s e = some { s with
      node := { s.node with recvManager :=
        (drain e.taken (m.storeNode pos (readInto e.result (m.buffer pos).node))).2 }
      live := s.node.run
      stored := Function.update s.stored pos e.result.stored
      last := some (e.result,
        some (m.storeNode pos (readInto e.result (m.buffer pos).node))) } := by
    rw [tcpReceiverStep, if_pos (by rw [h.live, h.noFault]; rfl), hg]
    simp only
    rw [if_neg hsize]
  refine ⟨_, _, pos, hstep, rfl, by rw [hg], rfl, ?_, ?_, hrest, h.run, h.run, h.noFault, ?_⟩
  · rw [m.storeNode_node, if_pos rfl, hnode]
  · rw [drain_nextFreeIndex]
    exact hfree
  · intro i monotonic realtime
    rw [hkeep, m.storeNode_node]
    split
    · next hi =>
      rw [stamped_readInto, hnode, ← hi]
      exact h.slots i monotonic realtime
    · rw [hnode]
      exact h.slots i monotonic realtime

end TcpReceiver.Untouched

/-! ## Whole runs -/

section

variable {c : TcpConnection} {s : TcpDelivery mtu}

/-- A session takes what is stamped for its connection. -/
theorem TcpDelivery.delivered_iff : s.Delivered c ↔ ∀ n monotonic realtime,
    s.delivered = some (n, monotonic, realtime) → n.StampedFor c.node monotonic realtime := by
  refine ⟨Delivered.stamped, fun h ↦ ⟨h, ?_⟩⟩
  intro n monotonic realtime hn nodePool conn hnode hwf hroom
  refine processSessionNode_appends mtu nodePool hwf hroom ?_
  rw [SessionConnectionPool.Accepts, hnode]
  exact (h n monotonic realtime hn).1

theorem TcpDelivery.delivered_of_none (h : s.delivered = none) : s.Delivered c :=
  delivered_iff.2 fun _ _ _ hn ↦ absurd hn (by simp [h])

theorem TcpDelivery.delivered_some_iff (t : TcpReceiver mtu) (n : Node)
    (monotonic realtime : Timespec) :
    (⟨t, some (n, monotonic, realtime)⟩ : TcpDelivery mtu).Delivered c ↔
      n.StampedFor c.node monotonic realtime := by
  rw [delivered_iff]
  refine ⟨fun hall ↦ hall _ _ _ rfl, fun hn n' mono real heq ↦ ?_⟩
  obtain ⟨rfl, rfl, rfl⟩ : n = n' ∧ monotonic = mono ∧ realtime = real := by
    simpa using heq
  exact hn

/-- Outside its loop the receiver does nothing. -/
theorem always_of_stopped (hd : s.Delivered c)
    (hstop : s.receiver.live = false ∨ s.receiver.fault = true) (es : List (Receive mtu)) :
    Always tcpDeliveryStep (TcpDelivery.Delivered c) s es := by
  cases es with
  | nil => exact hd
  | cons e es =>
    have hnone : tcpReceiverStep s.receiver e.turn = none := by
      rw [tcpReceiverStep]
      rcases hstop with hlive | hfault
      · simp [hlive]
      · simp [hfault]
    exact (always_cons_none (by rw [tcpDeliveryStep, hnone]; rfl)).2 hd

/-- Turn by turn, the receives that come out right are the foretold ones. -/
theorem delivered_iff_foretold (es : List (Receive mtu)) {q : List (Fin 256)}
    (h : s.receiver.Untouched c q) (hd : s.Delivered c) :
    Always tcpDeliveryStep (TcpDelivery.Delivered c) s es ↔
      Foretold c s.receiver.node.recvManager.nextFreeIndex q.length es := by
  induction es generalizing s q with
  | nil => exact iff_of_true hd trivial
  | cons e es ih =>
    rw [Foretold]
    by_cases hlt : q.length < 256
    · rw [if_pos hlt]
      by_cases heof : e.turn.result = .eof
      · obtain ⟨t, ht, hdead⟩ := h.eof_step hlt e.turn.taken
        have ht : tcpReceiverStep s.receiver e.turn = some t := by
          rw [← ht, ← heof]
        have hs : tcpDeliveryStep s e = some ⟨t, none⟩ := by
          rw [tcpDeliveryStep, ht, Option.map_some, heof]
        rw [heof, always_cons_some hs]
        exact iff_of_true ⟨hd, always_of_stopped (TcpDelivery.delivered_of_none rfl)
          (.inl hdead) es⟩ trivial
      · obtain ⟨t, m, pos, ht, hlast, hpos, hnext, hnode, hfree, hinv⟩ := h.shown_step hlt heof
        have hlen : ((q ++ [pos]).drop e.turn.taken).length = q.length + 1 - e.turn.taken := by
          rw [List.length_drop, List.length_append, List.length_singleton]
        rw [← hnext, ← hlen, ← hfree]
        cases hr : e.turn.result with
        | eof => exact absurd hr heof
        | error errno =>
          have hs : tcpDeliveryStep s e = some ⟨t, none⟩ := by
            rw [tcpDeliveryStep, ht, Option.map_some, hr]
          rw [always_cons_some hs]
          exact and_iff_right hd |>.trans (ih hinv (TcpDelivery.delivered_of_none rfl))
        | bytes b hb le =>
          set n := (m.buffer pos).node
          have hs : tcpDeliveryStep s e = some ⟨t, some (n, e.monotonic, e.realtime)⟩ := by
            rw [tcpDeliveryStep, ht, Option.map_some, hr, hlast, hpos]
          have hstamp : n.StampedFor c.node e.monotonic e.realtime ↔
              (c.memory.recvManager.buffer pos).node.StampedFor c.node e.monotonic e.realtime := by
            rw [← h.slots pos, hnode, stamped_readInto]
          have hdel := TcpDelivery.delivered_some_iff (c := c) t n e.monotonic e.realtime
          rw [always_cons_some hs, and_iff_right hd, ← hstamp]
          constructor
          · intro hA
            have hn := hA.head
            exact ⟨hdel.1 hn, (ih hinv hn).1 hA⟩
          · rintro ⟨hn, hrest⟩
            exact (ih hinv (hdel.2 hn)).2 hrest
    · rw [if_neg hlt]
      obtain ⟨t, ht, hlast, hfault⟩ := h.full_step hlt e.turn
      have hs : tcpDeliveryStep s e = some ⟨t, none⟩ := by
        rw [tcpDeliveryStep, ht, Option.map_some, hlast]
        cases e.turn.result <;> rfl
      rw [always_cons_some hs]
      exact iff_of_true ⟨hd, always_of_stopped (TcpDelivery.delivered_of_none rfl)
        (.inr hfault) es⟩ trivial

end

/-- **A TCP receiver delivers exactly what was foretold.**  For every connection that
`accept_thread` or `connect_tcp_server` sets up, whatever memory its records are made of, and every
sequence of receives: each node made available after a successful `readv` matches the connection's
node and carries the times of its receive, and the sessions of the connection take it, if and only
if each successful `readv` finds a slot in which, from before the connection, that match and those
times already stood. -/
theorem tcpReceiverThread_delivers_iff (mtu : MtuProfile) (c : TcpConnection)
    (es : List (Receive mtu)) :
    Always tcpDeliveryStep (TcpDelivery.Delivered c) (.init mtu c) es ↔ Foretold c 0 0 es := by
  have hstart : (TcpDelivery.init mtu c).Delivered c := TcpDelivery.delivered_of_none rfl
  exact delivered_iff_foretold es (TcpReceiver.Untouched.init mtu c) hstart

/-- A connection from 10.0.0.1 on descriptor 7, in zeroed memory, and a first byte from it: no
session takes the node. -/
theorem tcpReceiverThread_not_delivers :
    let listener := { ProtocolBaseCb.zero .mtu1500 with
      nodeCfg := { Node.zero .mtu1500 with fd := 3, family := .ipv4 } }
    let c : TcpConnection :=
      ⟨.accept listener 7 ⟨0x409C, [10, 0, 0, 1]⟩, .zero .mtu1500, 0, .zero .mtu1500⟩
    ¬ Always tcpDeliveryStep (TcpDelivery.Delivered c) (.init .mtu1500 c)
      [⟨⟨.bytes [1] (by decide) (by decide), 257⟩, ⟨5, 0⟩, ⟨9, 0⟩⟩] := by
  intro listener c hA
  have hfore := (delivered_iff_foretold _ (TcpReceiver.Untouched.init .mtu1500 c)
    (TcpDelivery.delivered_of_none rfl)).1 hA
  have hfd : (0 : ℤ) = c.node.fd := nodeCmp_fd hfore.1.1
  rw [TcpConnection.node, TcpSetup.node_fd] at hfd
  exact absurd hfd (by decide)

end DmmrOrbit
