import DmmrOrbit.Lib.Transition
import DmmrOrbit.Node.Drain
import DmmrOrbit.Socket.Net

/-!
# The UDP receiver thread

`receiver_thread` of `socket_udp.c`.  One turn of its loop acquires a receive slot, calls `recvmsg`
into it and, when data arrived, fills in the rest of the node and runs the receive callback.  What
`recvmsg` and the two clock calls returned is the input of the turn, a `RecvMsg`; the callback is
the one that empties the manager (`drain`).

The slot is marked busy *before* anything is known about the datagram, and the branch for
`ret == 0` leaves the loop body without giving it back.  So a zero-length datagram leaves behind a
busy slot with whatever its node held before, and the next datagram with data makes the callback
hand that node over as well; after 256 of them `get_free_node` has no slot left, and the loop spins
on `continue` without calling `recvmsg` ever again.

`receiverThread_faithful_iff` is the exact statement: the nodes handed over are the datagrams with
data, and there is a free slot whenever the loop starts over, if and only if the results come in the
order `Orderly` describes.
-/

set_option autoImplicit false

namespace DmmrOrbit

open Transition

variable {mtu : MtuProfile}

/-! ## The loop -/

/-- A datagram as `recvmsg` delivers it: at most `VALUE_BUFFER_SIZE` bytes, since that is the
length of the buffer it is given. -/
structure Datagram (mtu : MtuProfile) where
  peer : ClientAddr
  payload : List UInt8
  length_le : payload.length ≤ mtu.valueBufferSize

/-- What one call of `recvmsg` returned, together with the clock readings that follow a datagram
with data (`none` for a clock call that failed). -/
inductive RecvMsg (mtu : MtuProfile)
  | datagram (d : Datagram mtu) (monotonic realtime : Option Timespec)
  | error

/-- The receiver thread at the head of its loop.  `live` is cleared when the loop is left; the last
two fields are the history: the datagrams with data received so far and the nodes the callback was
handed. -/
structure UdpReceiver (mtu : MtuProfile) where
  node : UdpNode
  live : Bool
  received : List (Datagram mtu)
  drained : List Node

/-- The node of a slot after `recvmsg` and the assignments that follow it. -/
def fillNode (node : UdpNode) (d : Datagram mtu) (monotonic realtime : Option Timespec)
    (n : Node) : Node :=
  let n := { n with
    value := overlay d.payload n.value
    valueSize := UInt32.ofNat d.payload.length
    fd := node.nodeCfg.fd
    family := node.nodeCfg.family
    port := ntohs d.peer.port }
  let n := if n.family = .ipv4 then { n with ipv4 := overlay d.peer.addr n.ipv4 }
    else { n with ipv6 := overlay d.peer.addr n.ipv6 }
  { n with
    arrival := (monotonic.map Timespec.nanos).getD n.arrival
    deadline := (realtime.map Timespec.nanos).getD n.deadline }

/-- `receiver_thread` up to its loop: `start_udp_service` has set `run`, and the thread initialises
the manager. -/
def receiverThread (mtu : MtuProfile) (node : UdpNode) : UdpReceiver mtu where
  node := { node with run := true, recvManager := initNodeRecvManager node.recvManager }
  live := true
  received := []
  drained := []

/-- One turn of the loop.  When `get_free_node` returns null the turn ends without a call of
`recvmsg`, so no result is consumed. -/
def receiverStep (s : UdpReceiver mtu) (r : RecvMsg mtu) : Option (UdpReceiver mtu) :=
  if s.live then
    match getFreeNode s.node.recvManager with
    | (none, _) => none
    | (some pos, m) =>
      match r with
      | .error => some { s with node := { s.node with recvManager := m }, live := false }
      | .datagram d monotonic realtime =>
        if d.payload.length = 0 then
          -- `continue` while `run` is set: the slot stays busy
          some { s with node := { s.node with recvManager := m }, live := s.node.run }
        else
          let n := fillNode s.node d monotonic realtime (m.buffer pos).node
          let out := drain 257 (m.storeNode pos n)
          some
            { node := { s.node with recvManager := out.2 }
              live := s.node.run
              received := s.received ++ [d]
              drained := s.drained ++ out.1 }
  else none

/-! ## What the callback should see -/

/-- What a consumer reads of a node: its size, the peer's port and the payload. -/
def Node.view (n : Node) : ℕ × UInt16 × List UInt8 :=
  (n.valueSize.toNat, n.port, n.value.take n.valueSize.toNat)

/-- What a consumer should read of a datagram. -/
def Datagram.view (d : Datagram mtu) : ℕ × UInt16 × List UInt8 :=
  (d.payload.length, ntohs d.peer.port, d.payload)

/-- The nodes handed to the callback are the datagrams with data, each once and in order, and as
long as the loop runs there is a free slot for its next turn. -/
structure UdpReceiver.Faithful (s : UdpReceiver mtu) : Prop where
  drained : s.drained.map Node.view = s.received.map Datagram.view
  free : s.live = true → (getFreeNode s.node.recvManager).1 ≠ none

/-- A filled node shows the datagram it was filled from. -/
theorem view_fillNode (node : UdpNode) (d : Datagram mtu) (monotonic realtime : Option Timespec)
    (n : Node) : (fillNode node d monotonic realtime n).view = d.view := by
  have hlen : (UInt32.ofNat d.payload.length).toNat = d.payload.length := by
    have hle := d.length_le
    have hmtu : mtu.valueBufferSize ≤ 8920 := by cases mtu <;> decide
    rw [UInt32.toNat_ofNat']
    omega
  rw [fillNode, Node.view, Datagram.view]
  split <;> simp only [hlen, take_overlay]

/-! ## One turn -/

/-- The order of results under which the receiver works, when `z` slots are already lost: no
datagram with data after a zero-length one, and never 256 slots lost while the loop goes on. -/
def Orderly : ℕ → List (RecvMsg mtu) → Prop
  | _, [] => True
  | _, .error :: _ => True
  | z, .datagram d _ _ :: rs =>
    if d.payload.length = 0 then z + 1 < 256 ∧ Orderly (z + 1) rs else z = 0 ∧ Orderly 0 rs

/-- The same, for a single turn: `count_node` is the number of slots lost so far. -/
def UdpReceiver.TurnOk (s : UdpReceiver mtu) : RecvMsg mtu → Prop
  | .error => True
  | .datagram d _ _ =>
    if d.payload.length = 0 then countNode s.node.recvManager + 1 < 256
    else countNode s.node.recvManager = 0

/-- What the loop keeps: `q` are the slots lost to zero-length datagrams. -/
structure UdpReceiver.Inv (s : UdpReceiver mtu) (q : List (Fin 256)) : Prop where
  outstanding : Outstanding s.node.recvManager q
  run : s.node.run = true
  drained : s.drained.map Node.view = s.received.map Datagram.view
  room : s.live = true → q.length < 256

namespace UdpReceiver.Inv

variable {s t : UdpReceiver mtu} {q : List (Fin 256)}

theorem init (mtu : MtuProfile) (node : UdpNode) : (receiverThread mtu node).Inv [] :=
  ⟨.init _, rfl, rfl, fun _ ↦ by simp⟩

theorem faithful (h : s.Inv q) : s.Faithful := by
  refine ⟨h.drained, fun hl ↦ ?_⟩
  rw [h.outstanding.getFreeNode_eq (h.room hl)]
  simp

/-- A turn that receives an error leaves the loop. -/
theorem error_step (h : s.Inv q) (hs : receiverStep s .error = some t) :
    t.live = false ∧ ∃ r, t.Inv r := by
  rw [receiverStep] at hs
  split at hs
  · next hl =>
    obtain ⟨m', hg, hm, -⟩ := h.outstanding.getFreeNode_spec (h.room hl)
    rw [hg] at hs
    obtain rfl := Option.some.inj hs
    exact ⟨rfl, _, hm, h.run, h.drained, fun hf ↦ absurd hf (by simp)⟩
  · exact absurd hs (by simp)

/-- A zero-length datagram loses one more slot and changes nothing else. -/
theorem empty_step {d : Datagram mtu} {mono real : Option Timespec} (h : s.Inv q)
    (hd : d.payload.length = 0) (hs : receiverStep s (.datagram d mono real) = some t) :
    t.live = true ∧ t.node.run = true ∧ t.received = s.received ∧ t.drained = s.drained ∧
      ∃ pos, Outstanding t.node.recvManager (q ++ [pos]) := by
  rw [receiverStep] at hs
  split at hs
  · next hl =>
    obtain ⟨m', hg, hm, -⟩ := h.outstanding.getFreeNode_spec (h.room hl)
    rw [hg] at hs
    simp only [hd, if_true] at hs
    obtain rfl := Option.some.inj hs
    exact ⟨h.run, h.run, rfl, rfl, _, hm⟩
  · exact absurd hs (by simp)

/-- A datagram with data is handed over behind the stale nodes of all lost slots. -/
theorem data_step {d : Datagram mtu} {mono real : Option Timespec} (h : s.Inv q)
    (hd : d.payload.length ≠ 0) (hs : receiverStep s (.datagram d mono real) = some t) :
    t.live = true ∧ t.node.run = true ∧ t.received = s.received ++ [d] ∧
      Outstanding t.node.recvManager [] ∧ ∃ (stale : List Node) (slot : Node),
        stale.length = q.length ∧
          t.drained = s.drained ++ stale ++ [fillNode s.node d mono real slot] := by
  rw [receiverStep] at hs
  split at hs
  · next hl =>
    obtain ⟨m', hg, hm, -⟩ := h.outstanding.getFreeNode_spec (h.room hl)
    rw [hg] at hs
    simp only [hd, if_false] at hs
    obtain rfl := Option.some.inj hs
    set pos := s.node.recvManager.nextFreeIndex
    set n := fillNode s.node d mono real (m'.buffer pos).node
    obtain ⟨hout, hrest⟩ := (hm.fill pos n).drain_all
    refine ⟨h.run, h.run, rfl, hrest, (m'.storeNode pos n).nodes q, (m'.buffer pos).node,
      by simp [NodeRecvManager.nodes], ?_⟩
    show s.drained ++ (drain 257 (m'.storeNode pos n)).1 = _
    rw [hout, List.append_assoc]
    simp [NodeRecvManager.nodes, NodeRecvManager.storeNode_node, n]
  · exact absurd hs (by simp)

/-- While the loop runs, every result can be received. -/
theorem step_isSome (h : s.Inv q) (hl : s.live = true) (r : RecvMsg mtu) :
    ∃ t, receiverStep s r = some t := by
  obtain ⟨m', hg, -⟩ := h.outstanding.getFreeNode_spec (h.room hl)
  rw [receiverStep, if_pos hl, hg]
  cases r with
  | error => exact ⟨_, rfl⟩
  | datagram d mono real => by_cases hd : d.payload.length = 0 <;> simp [hd]

/-- A turn in good order keeps the invariant. -/
theorem turn (h : s.Inv q) (r : RecvMsg mtu) (hok : s.TurnOk r)
    (hs : receiverStep s r = some t) : ∃ q', t.Inv q' := by
  cases r with
  | error => exact (h.error_step hs).2
  | datagram d mono real =>
    rw [TurnOk, h.outstanding.countNode_eq] at hok
    by_cases hd : d.payload.length = 0
    · rw [if_pos hd] at hok
      obtain ⟨-, hrun, hrec, hdr, pos, hout⟩ := h.empty_step hd hs
      refine ⟨_, hout, hrun, by rw [hdr, hrec, h.drained], fun _ ↦ ?_⟩
      rw [List.length_append, List.length_singleton]; exact hok
    · rw [if_neg hd] at hok
      obtain ⟨-, hrun, hrec, hout, stale, slot, hstale, hdr⟩ := h.data_step hd hs
      have hnil : stale = [] := List.length_eq_zero_iff.1 (hstale.trans hok)
      refine ⟨[], hout, hrun, ?_, fun _ ↦ by simp⟩
      rw [hdr, hrec, hnil, List.append_nil, List.map_append, List.map_append, h.drained,
        List.map_singleton, List.map_singleton, view_fillNode]

/-- A turn out of order breaks the promise at once: a datagram with data brings a stale node to
the surface, and the 256th lost slot leaves none for the next turn. -/
theorem turn_bad (h : s.Inv q) (r : RecvMsg mtu) (hbad : ¬ s.TurnOk r)
    (hs : receiverStep s r = some t) : ¬ t.Faithful := by
  intro hf
  cases r with
  | error => exact hbad trivial
  | datagram d mono real =>
    rw [TurnOk, h.outstanding.countNode_eq] at hbad
    by_cases hd : d.payload.length = 0
    · rw [if_pos hd] at hbad
      obtain ⟨hl, -, -, -, pos, hout⟩ := h.empty_step hd hs
      have hfull : (q ++ [pos]).length = 256 := by
        have := hout.length_le
        rw [List.length_append, List.length_singleton] at this ⊢
        omega
      have := hf.free hl
      rw [hout.getFreeNode_full hfull] at this
      exact this rfl
    · rw [if_neg hd] at hbad
      obtain ⟨-, -, hrec, -, stale, slot, hstale, hdr⟩ := h.data_step hd hs
      have hlen := congrArg List.length hf.drained
      have hold := congrArg List.length h.drained
      simp only [hdr, hrec, List.length_map, List.length_append, List.length_singleton] at hlen
      simp only [List.length_map] at hold
      omega

end UdpReceiver.Inv

/-! ## Whole runs -/

/-- Outside its loop the thread receives nothing. -/
theorem guarded_of_not_live {s : UdpReceiver mtu} (hl : s.live = false) (rs : List (RecvMsg mtu)) :
    Guarded receiverStep UdpReceiver.TurnOk s rs := by
  cases rs with
  | nil => trivial
  | cons r rs => exact guarded_cons_none (by rw [receiverStep, hl]; rfl)

/-- Turn by turn, good order is `Orderly`. -/
theorem guarded_iff_orderly (rs : List (RecvMsg mtu)) {s : UdpReceiver mtu} {q : List (Fin 256)}
    (h : s.Inv q) (hl : s.live = true) :
    Guarded receiverStep UdpReceiver.TurnOk s rs ↔ Orderly q.length rs := by
  induction rs generalizing s q with
  | nil => exact Iff.rfl
  | cons r rs ih =>
    obtain ⟨t, ht⟩ := h.step_isSome hl r
    rw [guarded_cons_some ht]
    cases r with
    | error =>
      have hdead := (h.error_step ht).1
      exact ⟨fun _ ↦ trivial, fun _ ↦ ⟨trivial, guarded_of_not_live hdead rs⟩⟩
    | datagram d mono real =>
      have hcount := h.outstanding.countNode_eq
      by_cases hd : d.payload.length = 0
      · obtain ⟨hlive, -, -, -, pos, hout⟩ := h.empty_step hd ht
        rw [UdpReceiver.TurnOk, Orderly, if_pos hd, if_pos hd, hcount]
        refine and_congr_right fun hroom ↦ ?_
        obtain ⟨q', hq'⟩ := h.turn (.datagram d mono real)
          (by rw [UdpReceiver.TurnOk, if_pos hd, hcount]; exact hroom) ht
        have hlen : q'.length = q.length + 1 := by
          rw [← hq'.outstanding.countNode_eq, hout.countNode_eq, List.length_append,
            List.length_singleton]
        rw [ih hq' hlive, hlen]
      · obtain ⟨hlive, -, -, hout, -⟩ := h.data_step hd ht
        rw [UdpReceiver.TurnOk, Orderly, if_neg hd, if_neg hd, hcount]
        refine and_congr_right fun hzero ↦ ?_
        obtain ⟨q', hq'⟩ := h.turn (.datagram d mono real)
          (by rw [UdpReceiver.TurnOk, if_neg hd, hcount]; exact hzero) ht
        have hlen : q'.length = 0 := by
          rw [← hq'.outstanding.countNode_eq, hout.countNode_eq, List.length_nil]
        rw [ih hq' hlive, hlen]

/-- **The UDP receiver is faithful exactly on orderly results.**  For every sequence of `recvmsg`
results, the callback is handed the datagrams with data, each once, in order and with their own
size, port and payload, and every turn of the loop finds a free slot, if and only if the sequence is
`Orderly`: no datagram with data comes after a zero-length one, and fewer than 256 zero-length ones
come at all, up to the error that ends the loop. -/
theorem receiverThread_faithful_iff (mtu : MtuProfile) (node : UdpNode)
    (rs : List (RecvMsg mtu)) :
    Always receiverStep UdpReceiver.Faithful (receiverThread mtu node) rs ↔ Orderly 0 rs := by
  have hinit := UdpReceiver.Inv.init mtu node
  rw [always_iff_guarded (fun s : UdpReceiver mtu ↦ ∃ q, s.Inv q) (fun _ ⟨_, h⟩ ↦ h.faithful)
    (fun _ r _ ⟨_, h⟩ hok ↦ h.turn r hok) (fun _ r _ ⟨_, h⟩ hbad ↦ h.turn_bad r hbad) rs
    ⟨[], hinit⟩]
  exact guarded_iff_orderly rs hinit rfl

/-- A zero-length datagram followed by one with data: the callback is handed the slot of the first
one too, in which nothing was received. -/
theorem not_always_of_empty_data {node : UdpNode} {d d' : Datagram mtu} (hd : d.payload.length = 0)
    (hd' : d'.payload.length ≠ 0) : ¬ Always receiverStep UdpReceiver.Faithful
      (receiverThread mtu node) [.datagram d none none, .datagram d' none none] := by
  intro hA
  have h := UdpReceiver.Inv.init mtu node
  obtain ⟨t, ht⟩ := h.step_isSome rfl (.datagram d none none)
  obtain ⟨hlive, -, -, -, pos, hout⟩ := h.empty_step hd ht
  have hok : (receiverThread mtu node).TurnOk (.datagram d none none) := by
    rw [UdpReceiver.TurnOk, if_pos hd, h.outstanding.countNode_eq]
    decide
  obtain ⟨q, hq⟩ := h.turn _ hok ht
  obtain ⟨u, hu⟩ := hq.step_isSome hlive (.datagram d' none none)
  have hbad : ¬ t.TurnOk (.datagram d' none none) := by
    rw [UdpReceiver.TurnOk, if_neg hd', hout.countNode_eq]
    simp
  exact hq.turn_bad _ hbad hu ((always_cons_some hu).1 ((always_cons_some ht).1 hA).2).2

theorem receiverThread_not_faithful :
    ¬ Always receiverStep UdpReceiver.Faithful (receiverThread .mtu1500 (.zero .mtu1500))
      [.datagram ⟨⟨0x3905, [10, 0, 0, 1]⟩, [], by decide⟩ none none,
        .datagram ⟨⟨0x3905, [10, 0, 0, 1]⟩, [7], by decide⟩ none none] :=
  not_always_of_empty_data (by rfl) (by simp)

end DmmrOrbit
