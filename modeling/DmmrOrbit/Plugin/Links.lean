import DmmrOrbit.Lib.Transition
import DmmrOrbit.Plugin.TrunkPlugin
import DmmrOrbit.Socket.Send
import DmmrOrbit.Socket.TcpSetup

/-!
# The links of the sessions

The six callbacks of `dmmr_trunk_plugin.c` register a connection: they copy its `tcp_node` or
`udp_node` into the session of an entry, tag the *copy* with the protocol and link it to the
original.  `dispatcher` follows the link and looks at the tag of the original.  For a listener or a
dispatcher `start_acception` and `start_dispatcher_tcp` have set that tag; a `tcp_node` that
`accept_thread` or `connect_tcp_server` took from the pool is tagged by nobody.

`allWellLinked_iff` follows the registry of connections, the session table and the pool through any
order of set-ups, callbacks and moves of the pool by `realloc`: every live session is linked to a
node with its own tag if and only if each callback that leaves its entry live found the tag in the
pool's memory already, and the pool moved only while no live session was linked into it.
-/

set_option autoImplicit false

namespace DmmrOrbit

open Transition

/-! ## The callbacks -/

/-- `*ptr` with another `linked`. -/
def Process.setLinked (w : Process) (ptr link : CbPtr) : Process :=
  match ptr with
  | .cap i => { w with cap := Function.update w.cap i { w.cap i with linked := some link } }
  | .tcp i =>
    { w with tcpPool := Function.update w.tcpPool i { w.tcpPool i with linked := some link } }
  | .session port proto =>
    match getRecnoSlot port proto with
    | some p => w.setEntry p { w.recno p with
        session := { (w.recno p).session with linked := some link } }
    | none => w

/-- The body that the callbacks for dispatched and for made connections share.  It differs from the
one for accepted connections in the assignment to `input->linked`. -/
def onConnectConnectionCb (proto : ProtoArr) (env : AcceptEnv) (w : Process) (input : CbPtr) :
    Call Unit :=
  match w.cb input with
  | none => .fault
  | some u =>
    match u.node with
    | none => .fault
    | some k =>
      match getRecnoSlot (w.nodes k).port proto with
      | none => .fault
      | some p =>
        let w := w.setLinked input (.session (w.nodes k).port proto)
        match insertSession env.mtu env.results env.fuel (storeSession proto w p u input) p with
        | .returned ret w =>
          if ret = 0 then .returned () (env.insertScheduler w p).2 else .returned () w
        | .running w => .running w
        | .fault => .fault

/-- `on_dispatch_connection_udp_cb`. -/
def onDispatchConnectionUdpCb : AcceptEnv → Process → CbPtr → Call Unit :=
  onConnectConnectionCb .udp

/-- `on_dispatch_connection_tcp_cb`. -/
def onDispatchConnectionTcpCb : AcceptEnv → Process → CbPtr → Call Unit :=
  onConnectConnectionCb .tcp

/-- `on_connect_connection_udp_cb`. -/
def onConnectConnectionUdpCb : AcceptEnv → Process → CbPtr → Call Unit :=
  onConnectConnectionCb .udp

/-- `on_connect_connection_tcp_cb`. -/
def onConnectConnectionTcpCb : AcceptEnv → Process → CbPtr → Call Unit :=
  onConnectConnectionCb .tcp

/-- The callbacks by what has happened to the connection. -/
inductive TrunkCb
  | dispatch
  | connect
  | acception
  deriving DecidableEq, Repr

/-- The callback for an event and a protocol. -/
def TrunkCb.call : TrunkCb → ProtoArr → AcceptEnv → Process → CbPtr → Call Unit
  | dispatch, .udp => onDispatchConnectionUdpCb
  | dispatch, .tcp => onDispatchConnectionTcpCb
  | connect, .udp => onConnectConnectionUdpCb
  | connect, .tcp => onConnectConnectionTcpCb
  | acception, .udp => onAcceptionConnectionUdpCb
  | acception, .tcp => onAcceptionConnectionTcpCb

/-! ## Set-ups, callbacks and moves -/

/-- The tables, and where `tcp_pool` lies: a pointer `.tcp a` is an address, and `tcpPool a` is the
memory there. -/
structure Registry where
  w : Process
  tcpBase : ℕ
  tcpSize : ℕ

/-- The registry before any session: `recno` is zeroed, the rest is as it may be. -/
def Registry.init (mtu : MtuProfile) (w : Process) (tcpBase tcpSize : ℕ) : Registry :=
  ⟨{ w with recno := fun _ ↦ .zero mtu }, tcpBase, tcpSize⟩

/-- What the threads do to the tables. -/
inductive RegistryEvent
  /-- `accept_thread` or `connect_tcp_server`, when `get_tcp_node` returns `tcp_pool + j` and
  `get_node` the node `k`. -/
  | setUp (c : TcpSetup) (j k : ℕ)
  /-- `get_tcp_node` doubles the pool, and `realloc` returns `base`.  `memory` is what is found
  outside the part that was copied. -/
  | grow (base : ℕ) (memory : ℕ → TcpNode)
  /-- A callback for TCP on the `tcp_node` at `a`. -/
  | tcpCb (cb : TrunkCb) (env : AcceptEnv) (a : ℕ)
  /-- A callback for UDP on the `udp_node` at `cap + i`. -/
  | udpCb (cb : TrunkCb) (env : AcceptEnv) (i : ℕ)

/-- The pool at `base`, after its first `tcpSize` elements have been copied there. -/
def Registry.movedPool (s : Registry) (base : ℕ) (memory : ℕ → TcpNode) (a : ℕ) : TcpNode :=
  if base ≤ a ∧ a < base + s.tcpSize then s.w.tcpPool (s.tcpBase + (a - base)) else memory a

/-- A connection is set up in the element `j` of the pool, with the node `k`. -/
def Registry.setUp (s : Registry) (c : TcpSetup) (j k : ℕ) : Registry :=
  let a := s.tcpBase + j
  { s with w := { s.w with
    tcpPool := Function.update s.w.tcpPool a (c.tcpNode k (s.w.tcpPool a))
    nodes := Function.update s.w.nodes k (c.node (s.w.nodes k)) } }

/-- The block that `realloc` returned is the old one, or lies elsewhere. -/
def Registry.Fresh (s : Registry) (base : ℕ) : Prop :=
  base = s.tcpBase ∨ s.tcpBase + s.tcpSize ≤ base ∨ base + 2 * s.tcpSize ≤ s.tcpBase

instance (s : Registry) (base : ℕ) : Decidable (s.Fresh base) :=
  inferInstanceAs (Decidable (_ ∨ _ ∨ _))

/-- One event.  A callback that has not returned goes on for ever, and the other threads go on with
the tables as it has left them; one that has used a null pointer ends the process. -/
def registryStep (s : Registry) : RegistryEvent → Option Registry
  | .setUp c j k => if j < s.tcpSize then some (s.setUp c j k) else none
  | .grow base memory =>
    if s.Fresh base then
      some { w := { s.w with tcpPool := s.movedPool base memory }
             tcpBase := base
             tcpSize := 2 * s.tcpSize }
    else none
  | .tcpCb cb env a => (cb.call .tcp env s.w (.tcp a)).process.map fun w ↦ { s with w := w }
  | .udpCb cb env i => (cb.call .udp env s.w (.cap i)).process.map fun w ↦ { s with w := w }

/-! ## What is promised of the links -/

/-- The `protocol_base_cb` that a pointer names; an address outside the pool names none. -/
def Registry.cb (s : Registry) : CbPtr → Option ProtocolBaseCb
  | .tcp a =>
    if s.tcpBase ≤ a ∧ a < s.tcpBase + s.tcpSize then some (s.w.tcpPool a) else none
  | ptr => s.w.cb ptr

/-- `dispatcher` called with the link of a session comes to one of the two senders. -/
def ReachesSender (u : Option ProtocolBaseCb) : Prop :=
  ∀ (n : List Node) (k : ℕ) (r : SendResult), 0 < k →
    dispatcher u n k r = (tcpSendToClient n k r).2 ∨ dispatcher u n k r = (udpSendToClient n k r).2

/-- The session of the entry is linked to a `protocol_base_cb` with its own tag, and is sent
through it. -/
def Registry.WellLinked (s : Registry) (p : RecnoIndex) : Prop :=
  ∃ ptr u, getSessionPointer (s.w.recno p).session = some ptr ∧ s.cb ptr = some u ∧
    u.proto = (s.w.recno p).session.proto ∧ ReachesSender (some u)

/-- Every live session is. -/
def Registry.AllWellLinked (s : Registry) : Prop :=
  ∀ p, (s.w.recno p).run = true → s.WellLinked p

/-- The entry that a callback for the node goes to. -/
def Process.entryOf (w : Process) (proto : ProtoArr) (input : CbPtr) : Option RecnoIndex :=
  ((w.cb input).bind ProtocolBaseCb.node).bind fun k ↦ getRecnoSlot (w.nodes k).port proto

/-- The tag of what a pointer names. -/
def Registry.tag (s : Registry) (ptr : CbPtr) : Option Proto := (s.cb ptr).map ProtocolBaseCb.proto

/-- A callback whose entry is live already, or comes to life because `insert_session` finds a ring
and memory, is called for a node that carries the tag. -/
def Registry.Tagged (s : Registry) (proto : ProtoArr) (env : AcceptEnv) (input : CbPtr) : Prop :=
  ∀ p, s.w.entryOf proto input = some p →
    (s.w.recno p).run = true ∨ s.w.circleBuffer = true ∧ env.results.calloc = true →
    s.tag input = some proto.toProto

/-- The steps that keep the links: callbacks for tagged nodes, and moves of the pool while no live
session is linked into it. -/
def Registry.StepOk (s : Registry) : RegistryEvent → Prop
  | .setUp _ _ _ => True
  | .grow base _ =>
    base = s.tcpBase ∨
      ∀ p a, (s.w.recno p).run = true → (s.w.recno p).session.linked ≠ some (.tcp a)
  | .tcpCb _ env a => s.Tagged .tcp env (.tcp a)
  | .udpCb _ env i => s.Tagged .udp env (.cap i)

/-! ## What a callback does -/

section

variable {w w' : Process} {proto : ProtoArr} {p : RecnoIndex}

theorem storeSession_run (proto : ProtoArr) (w : Process) (p : RecnoIndex) (u : ProtocolBaseCb)
    (input : CbPtr) : ((storeSession proto w p u input).recno p).run = (w.recno p).run := by
  rw [storeSession, linkSessionPorts_run, w.setEntry_recno_self]

/-- What all callbacks do once they have their entry: it is linked to the node and tagged, it is
live if it was or if `insert_session` got so far, and nothing else changes. -/
structure Registered (proto : ProtoArr) (env : AcceptEnv) (p : RecnoIndex) (input : CbPtr)
    (w w' : Process) : Prop where
  agree : Process.AgreeExcept p w w'
  linked : (w'.recno p).session.linked = some input
  proto : (w'.recno p).session.proto = proto.toProto
  run : (w'.recno p).run = true ↔
    (w.recno p).run = true ∨ w.circleBuffer = true ∧ env.results.calloc = true

/-- `insert_session` on a stored session, which does not return 0. -/
theorem registered_insertSession (proto : ProtoArr) (env : AcceptEnv) (w : Process)
    (p : RecnoIndex) (u : ProtocolBaseCb) (input : CbPtr) :
    ∃ w', (insertSession env.mtu env.results env.fuel (storeSession proto w p u input) p =
          .returned eof w' ∨
        insertSession env.mtu env.results env.fuel (storeSession proto w p u input) p =
          .running w') ∧ Registered proto env p input w w' := by
  obtain ⟨hstore, hsession⟩ := storeSession_spec proto w p u input
  obtain ⟨w', hcall, hinsert, hkept⟩ := insertSession_spec env.mtu env.results env.fuel
    (storeSession proto w p u input) p
  have hprocess : (insertSession env.mtu env.results env.fuel
      (storeSession proto w p u input) p).process = some w' := by
    rcases hcall with hret | hrun
    · rw [hret]; rfl
    · rw [hrun]; rfl
  refine ⟨w', hcall, hstore.trans hinsert, ?_, ?_, ?_⟩
  · rw [hkept, hsession]
  · rw [hkept, hsession]
  · rw [insertSession_run hprocess, storeSession_run, hstore.circleBuffer]

/-- The callbacks do nothing more to the tables once `insert_session` has failed, which it does
if it returns. -/
theorem registered_of_process {env : AcceptEnv} {u : ProtocolBaseCb} {input : CbPtr}
    {onReturn : ℤ → Process → Call Unit} (heof : ∀ w, onReturn eof w = .returned () w)
    (h : (match insertSession env.mtu env.results env.fuel (storeSession proto w p u input) p with
      | .returned ret w => onReturn ret w
      | .running w => .running w
      | .fault => .fault : Call Unit).process = some w') : Registered proto env p input w w' := by
  obtain ⟨w₂, hcall, hreg⟩ := registered_insertSession proto env w p u input
  have hw' : w₂ = w' := by
    rcases hcall with hret | hrun
    · rw [hret] at h
      dsimp only at h
      rw [heof] at h
      exact Option.some.inj h
    · rw [hrun] at h
      exact Option.some.inj h
  exact hw' ▸ hreg

/-- The tables differ in `linked` fields outside the session table at most. -/
structure Process.Relinked (w w' : Process) : Prop where
  recno : w'.recno = w.recno
  circleBuffer : w'.circleBuffer = w.circleBuffer
  tcpPool : ∀ a, { w'.tcpPool a with linked := none } = { w.tcpPool a with linked := none }
  cap : ∀ i, { w'.cap i with linked := none } = { w.cap i with linked := none }

namespace Process.Relinked

variable {w w' : Process}

theorem refl (w : Process) : w.Relinked w :=
  ⟨rfl, rfl, fun _ ↦ rfl, fun _ ↦ rfl⟩

theorem tcpTag (h : w.Relinked w') (a : ℕ) : (w'.tcpPool a).proto = (w.tcpPool a).proto := by
  have hrest := h.tcpPool a
  rw [ProtocolBaseCb.mk.injEq] at hrest
  exact hrest.1

theorem tcpRun (h : w.Relinked w') (a : ℕ) : (w'.tcpPool a).run = (w.tcpPool a).run := by
  have hrest := h.tcpPool a
  rw [ProtocolBaseCb.mk.injEq] at hrest
  exact hrest.2.1

theorem capTag (h : w.Relinked w') (i : ℕ) : (w'.cap i).proto = (w.cap i).proto := by
  have hrest := h.cap i
  rw [ProtocolBaseCb.mk.injEq] at hrest
  exact hrest.1

end Process.Relinked

/-- The nodes that callbacks are called for. -/
def CbPtr.IsNode : CbPtr → Prop
  | .cap _ => True
  | .tcp _ => True
  | .session _ _ => False

theorem Process.relinked_setLinked (w : Process) {ptr : CbPtr} (hptr : ptr.IsNode)
    (link : CbPtr) : w.Relinked (w.setLinked ptr link) := by
  cases ptr with
  | cap i =>
    refine ⟨rfl, rfl, fun _ ↦ rfl, fun j ↦ ?_⟩
    by_cases hj : j = i
    · subst hj; simp [setLinked]
    · simp [setLinked, hj]
  | tcp a =>
    refine ⟨rfl, rfl, fun b ↦ ?_, fun _ ↦ rfl⟩
    by_cases hb : b = a
    · subst hb; simp [setLinked]
    · simp [setLinked, hb]
  | session port proto => exact hptr.elim

/-- A callback that comes to stand anywhere has found the entry of its node. -/
theorem Process.entryOf_of_process {input : CbPtr}
    {body : ProtocolBaseCb → ℕ → RecnoIndex → Call Unit}
    (h : (match w.cb input with
      | none => .fault
      | some u =>
        match u.node with
        | none => .fault
        | some k =>
          match getRecnoSlot (w.nodes k).port proto with
          | none => .fault
          | some p => body u k p : Call Unit).process = some w') :
    ∃ u k p, w.entryOf proto input = some p ∧ (body u k p).process = some w' := by
  cases hu : w.cb input with
  | none => simp [hu, Call.process] at h
  | some u =>
    cases hk : u.node with
    | none => simp [hu, hk, Call.process] at h
    | some k =>
      cases hp : getRecnoSlot (w.nodes k).port proto with
      | none => simp [hu, hk, hp, Call.process] at h
      | some p =>
        simp only [hu, hk, hp] at h
        refine ⟨u, k, p, ?_, h⟩
        rw [Process.entryOf, hu, Option.bind_some, hk, Option.bind_some, hp]

/-- A callback that gets through to `insert_session` goes to the node's entry. -/
theorem onConnectConnectionCb_spec {env : AcceptEnv} {input : CbPtr} (hinput : input.IsNode)
    (h : (onConnectConnectionCb proto env w input).process = some w') :
    ∃ p w₁, w.entryOf proto input = some p ∧ w.Relinked w₁ ∧
      Registered proto env p input w₁ w' := by
  rw [onConnectConnectionCb] at h
  obtain ⟨u, k, p, hp, h⟩ := Process.entryOf_of_process h
  exact ⟨p, w.setLinked input (.session (w.nodes k).port proto), hp,
    w.relinked_setLinked hinput _, registered_of_process (fun _ ↦ rfl) h⟩

theorem onAcceptionConnectionCb_registers {env : AcceptEnv} {input : CbPtr}
    (h : (onAcceptionConnectionCb proto env w input).process = some w') :
    ∃ p w₁, w.entryOf proto input = some p ∧ w.Relinked w₁ ∧
      Registered proto env p input w₁ w' := by
  rw [onAcceptionConnectionCb] at h
  obtain ⟨u, k, p, hp, h⟩ := Process.entryOf_of_process h
  exact ⟨p, w, hp, .refl w, registered_of_process (fun _ ↦ rfl) h⟩

/-- All six callbacks. -/
theorem TrunkCb.call_spec (cb : TrunkCb) {env : AcceptEnv} {input : CbPtr}
    (hinput : input.IsNode) (h : (cb.call proto env w input).process = some w') :
    ∃ p w₁, w.entryOf proto input = some p ∧ w.Relinked w₁ ∧
      Registered proto env p input w₁ w' := by
  cases cb with
  | dispatch => cases proto <;> exact onConnectConnectionCb_spec hinput h
  | connect => cases proto <;> exact onConnectConnectionCb_spec hinput h
  | acception => cases proto <;> exact onAcceptionConnectionCb_registers h

end

/-! ## One step -/

/-- A link with a tag reaches a sender. -/
theorem reachesSender_of_proto {u : ProtocolBaseCb} (h : u.proto ≠ .none) :
    ReachesSender (some u) := by
  intro n k r hk
  have hk : ¬ k = 0 := Nat.ne_of_gt hk
  cases hp : u.proto with
  | none => exact absurd hp h
  | udp =>
    right
    simp only [dispatcher, hk, if_false, hp]
  | tcp =>
    left
    simp only [dispatcher, hk, if_false, hp]

namespace Registry

variable {s t : Registry}

/-- The links that are good, without the dispatcher. -/
theorem wellLinked_iff {p : RecnoIndex} : s.WellLinked p ↔
    ∃ ptr, (s.w.recno p).session.linked = some ptr ∧
      s.tag ptr = some (s.w.recno p).session.proto ∧ (s.w.recno p).session.proto ≠ .none := by
  constructor
  · rintro ⟨ptr, u, hptr, hu, htag, -⟩
    have htag : s.tag ptr = some (s.w.recno p).session.proto := by
      rw [tag, hu, Option.map_some, htag]
    cases hp : (s.w.recno p).session.proto with
    | none => rw [getSessionPointer, hp] at hptr; exact absurd hptr (by simp)
    | udp => rw [getSessionPointer, hp] at hptr; exact ⟨ptr, hptr, hp ▸ htag, by simp⟩
    | tcp => rw [getSessionPointer, hp] at hptr; exact ⟨ptr, hptr, hp ▸ htag, by simp⟩
  · rintro ⟨ptr, hptr, htag, hne⟩
    obtain ⟨u, hu, htag⟩ := Option.map_eq_some_iff.1 htag
    refine ⟨ptr, u, ?_, hu, htag, reachesSender_of_proto (htag ▸ hne)⟩
    rw [getSessionPointer, hptr]
    cases hp : (s.w.recno p).session.proto with
    | none => exact absurd hp hne
    | udp => rfl
    | tcp => rfl

/-- What is kept: every live session is linked to a node, and finds its own tag there. -/
def Inv (s : Registry) : Prop :=
  ∀ p, (s.w.recno p).run = true → ∃ ptr, (s.w.recno p).session.linked = some ptr ∧ ptr.IsNode ∧
    s.tag ptr = some (s.w.recno p).session.proto ∧ (s.w.recno p).session.proto ≠ .none

namespace Inv

theorem init (mtu : MtuProfile) (w : Process) (tcpBase tcpSize : ℕ) :
    (Registry.init mtu w tcpBase tcpSize).Inv := by
  intro p hrun
  exact absurd hrun (by simp [Registry.init, SessionConnectionPool.zero])

theorem allWellLinked (h : s.Inv) : s.AllWellLinked := by
  intro p hrun
  obtain ⟨ptr, hptr, -, htag, hne⟩ := h p hrun
  exact wellLinked_iff.2 ⟨ptr, hptr, htag, hne⟩

/-- Tables with the same sessions and the same tags are as good. -/
theorem of_tag (h : s.Inv) (hrecno : t.w.recno = s.w.recno)
    (htag : ∀ p ptr, (s.w.recno p).run = true → (s.w.recno p).session.linked = some ptr →
      ptr.IsNode → s.tag ptr ≠ none → t.tag ptr = s.tag ptr) : t.Inv := by
  intro p hrun
  rw [hrecno] at hrun ⊢
  obtain ⟨ptr, hptr, hnode, hown, hne⟩ := h p hrun
  refine ⟨ptr, hptr, hnode, ?_, hne⟩
  rw [htag p ptr hrun hptr hnode (by rw [hown]; simp), hown]

end Inv

/-- Tags depend on the tags in the tables and on the place of the pool. -/
theorem tag_congr (hbase : t.tcpBase = s.tcpBase) (hsize : t.tcpSize = s.tcpSize)
    (htcp : ∀ a, (t.w.tcpPool a).proto = (s.w.tcpPool a).proto)
    (hcap : ∀ i, (t.w.cap i).proto = (s.w.cap i).proto) {ptr : CbPtr} (hptr : ptr.IsNode) :
    t.tag ptr = s.tag ptr := by
  cases ptr with
  | cap i =>
    show some (t.w.cap i).proto = some (s.w.cap i).proto
    rw [hcap]
  | tcp a =>
    rw [tag, tag, Registry.cb, Registry.cb, hbase, hsize]
    split
    · rw [Option.map_some, Option.map_some, htcp]
    · rfl
  | session port proto => exact hptr.elim

/-- The tags after a callback. -/
theorem tag_registered {proto : ProtoArr} {env : AcceptEnv} {p : RecnoIndex} {input ptr : CbPtr}
    {w₁ w' : Process} (hre : s.w.Relinked w₁) (hreg : Registered proto env p input w₁ w')
    (hptr : ptr.IsNode) : ({ s with w := w' } : Registry).tag ptr = s.tag ptr := by
  refine tag_congr (by rfl) (by rfl) (fun a ↦ ?_) (fun i ↦ ?_) hptr
  · show (w'.tcpPool a).proto = _
    rw [hreg.agree.tcpPool, hre.tcpTag]
  · show (w'.cap i).proto = _
    rw [hreg.agree.cap, hre.capTag]

/-- A callback for a tagged node keeps the invariant. -/
theorem Inv.registered {proto : ProtoArr} {env : AcceptEnv} {p : RecnoIndex} {input : CbPtr}
    {w₁ w' : Process} (h : s.Inv) (hre : s.w.Relinked w₁)
    (hreg : Registered proto env p input w₁ w') (hinput : input.IsNode)
    (hentry : s.w.entryOf proto input = some p) (hok : s.Tagged proto env input) :
    ({ s with w := w' } : Registry).Inv := by
  intro q hrun
  have hrun : (w'.recno q).run = true := hrun
  by_cases hq : q = p
  · subst hq
    rw [hreg.run, hre.recno, hre.circleBuffer] at hrun
    refine ⟨input, hreg.linked, hinput, ?_, ?_⟩
    · rw [tag_registered hre hreg hinput, hok q hentry hrun]
      exact congrArg some hreg.proto.symm
    · show (w'.recno q).session.proto ≠ .none
      rw [hreg.proto]
      cases proto <;> simp [ProtoArr.toProto]
  · have hkept : w'.recno q = s.w.recno q := by rw [hreg.agree.recno q hq, hre.recno]
    rw [hkept] at hrun
    obtain ⟨ptr, hptr, hnode, hown, hne⟩ := h q hrun
    refine ⟨ptr, ?_, hnode, ?_, ?_⟩
    · exact (congrArg (fun c ↦ c.session.linked) hkept).trans hptr
    · rw [tag_registered hre hreg hnode, hown]
      exact congrArg (fun c ↦ some c.session.proto) hkept.symm
    · exact fun hnone ↦ hne ((congrArg (fun c ↦ c.session.proto) hkept.symm).trans hnone)

/-- A callback for a node without the tag leaves a live session with a bad link. -/
theorem registered_bad {proto : ProtoArr} {env : AcceptEnv} {p : RecnoIndex} {input : CbPtr}
    {w₁ w' : Process} (hre : s.w.Relinked w₁) (hreg : Registered proto env p input w₁ w')
    (hinput : input.IsNode) (hentry : s.w.entryOf proto input = some p)
    (hbad : ¬ s.Tagged proto env input) :
    ¬ ({ s with w := w' } : Registry).AllWellLinked := by
  intro hall
  refine hbad fun q hq hlive ↦ ?_
  obtain rfl : p = q := Option.some.inj (hentry.symm.trans hq)
  have hrun : (w'.recno p).run = true := by
    rw [hreg.run, hre.recno, hre.circleBuffer]
    exact hlive
  obtain ⟨ptr, hptr, htag, -⟩ := wellLinked_iff.1 (hall p hrun)
  obtain rfl : input = ptr := Option.some.inj (hreg.linked.symm.trans hptr)
  rw [tag_registered hre hreg hinput] at htag
  exact htag.trans (congrArg some hreg.proto)

theorem Inv.setUp_step (h : s.Inv) {c : TcpSetup} {j k : ℕ}
    (hs : registryStep s (.setUp c j k) = some t) : t.Inv := by
  rw [registryStep] at hs
  split at hs
  · obtain rfl := Option.some.inj hs
    refine h.of_tag rfl fun _ ptr _ _ hnode _ ↦ ?_
    refine tag_congr (by rfl) (by rfl) (fun a ↦ ?_) (fun _ ↦ by rfl) hnode
    by_cases ha : a = s.tcpBase + j
    · subst ha; simp [setUp]
    · simp [setUp, ha]
  · exact absurd hs (by simp)

/-- A link into the pool finds its element again if the pool has not moved. -/
theorem Inv.grow_step (h : s.Inv) {base : ℕ} {memory : ℕ → TcpNode}
    (hok : s.StepOk (.grow base memory)) (hs : registryStep s (.grow base memory) = some t) :
    t.Inv := by
  rw [registryStep] at hs
  split at hs
  · obtain rfl := Option.some.inj hs
    refine h.of_tag rfl fun p ptr hrun hptr hnode hsome ↦ ?_
    cases ptr with
    | cap i => rfl
    | session port proto => exact hnode.elim
    | tcp a =>
      rcases hok with hsame | hnone
      · subst hsame
        have hin : s.tcpBase ≤ a ∧ a < s.tcpBase + s.tcpSize := by
          by_contra hout
          exact hsome (by rw [tag, Registry.cb, if_neg hout]; rfl)
        have hin' : s.tcpBase ≤ a ∧ a < s.tcpBase + 2 * s.tcpSize := by omega
        rw [tag, tag, Registry.cb, Registry.cb, if_pos hin, if_pos hin']
        simp only [movedPool, if_pos hin]
        rw [Nat.add_sub_cancel' hin.1]
      · exact absurd hptr (hnone p a hrun)
  · exact absurd hs (by simp)

/-- A pool that moves takes the nodes away from under the links. -/
theorem Inv.grow_bad (h : s.Inv) {base : ℕ} {memory : ℕ → TcpNode}
    (hbad : ¬ s.StepOk (.grow base memory)) (hs : registryStep s (.grow base memory) = some t) :
    ¬ t.AllWellLinked := by
  rw [registryStep] at hs
  split at hs
  · next hfresh =>
    obtain rfl := Option.some.inj hs
    intro hall
    refine hbad (.inr fun p a hrun hlinked ↦ ?_)
    have hmoved : base ≠ s.tcpBase := fun heq ↦ hbad (.inl heq)
    obtain ⟨ptr, hptr, -, htag, -⟩ := h p hrun
    obtain rfl : CbPtr.tcp a = ptr := Option.some.inj (hlinked.symm.trans hptr)
    have hin : s.tcpBase ≤ a ∧ a < s.tcpBase + s.tcpSize := by
      by_contra hout
      rw [tag, Registry.cb, if_neg hout] at htag
      exact absurd htag (by simp)
    have hout : ¬ (base ≤ a ∧ a < base + 2 * s.tcpSize) := by
      rcases hfresh with heq | hdisjoint
      · exact absurd heq hmoved
      · omega
    obtain ⟨ptr, hptr', htag', -⟩ := wellLinked_iff.1 (hall p hrun)
    obtain rfl : CbPtr.tcp a = ptr := Option.some.inj (hlinked.symm.trans hptr')
    rw [tag, Registry.cb, if_neg hout] at htag'
    exact absurd htag' (by simp)
  · exact absurd hs (by simp)

/-- A step that is in order keeps the invariant. -/
theorem Inv.step (h : s.Inv) (e : RegistryEvent) (hok : s.StepOk e)
    (hs : registryStep s e = some t) : t.Inv := by
  cases e with
  | setUp c j k => exact h.setUp_step hs
  | grow base memory => exact h.grow_step hok hs
  | tcpCb cb env a =>
    obtain ⟨w', hw', rfl⟩ := Option.map_eq_some_iff.1 hs
    obtain ⟨p, w₁, hentry, hre, hreg⟩ := cb.call_spec (by trivial) hw'
    exact h.registered hre hreg (by trivial) hentry hok
  | udpCb cb env i =>
    obtain ⟨w', hw', rfl⟩ := Option.map_eq_some_iff.1 hs
    obtain ⟨p, w₁, hentry, hre, hreg⟩ := cb.call_spec (by trivial) hw'
    exact h.registered hre hreg (by trivial) hentry hok

/-- A step that is not leaves a bad link at once. -/
theorem Inv.step_bad (h : s.Inv) (e : RegistryEvent) (hbad : ¬ s.StepOk e)
    (hs : registryStep s e = some t) : ¬ t.AllWellLinked := by
  cases e with
  | setUp c j k => exact absurd trivial hbad
  | grow base memory => exact h.grow_bad hbad hs
  | tcpCb cb env a =>
    obtain ⟨w', hw', rfl⟩ := Option.map_eq_some_iff.1 hs
    obtain ⟨p, w₁, hentry, hre, hreg⟩ := cb.call_spec (by trivial) hw'
    exact registered_bad hre hreg (by trivial) hentry hbad
  | udpCb cb env i =>
    obtain ⟨w', hw', rfl⟩ := Option.map_eq_some_iff.1 hs
    obtain ⟨p, w₁, hentry, hre, hreg⟩ := cb.call_spec (by trivial) hw'
    exact registered_bad hre hreg (by trivial) hentry hbad

end Registry

/-! ## Whole runs -/

/-- **Sessions are well linked exactly when the pool's memory happens to carry the tag.**  For every
order of set-ups, callbacks and moves of the pool, from empty sessions and whatever else the tables
hold: in every state the link of every live session is not null and names a `protocol_base_cb` with
the session's own tag, so that every dispatch through it reaches a sender, if and only if each
callback that leaves its entry live was called for a node that carried the tag, and the pool never
moved while a live session was linked into it. -/
theorem allWellLinked_iff (mtu : MtuProfile) (w : Process) (tcpBase tcpSize : ℕ)
    (es : List RegistryEvent) :
    Always registryStep Registry.AllWellLinked (.init mtu w tcpBase tcpSize) es ↔
      Guarded registryStep Registry.StepOk (.init mtu w tcpBase tcpSize) es :=
  always_iff_guarded Registry.Inv (fun _ h ↦ h.allWellLinked) (fun _ e _ h hok ↦ h.step e hok)
    (fun _ e _ h hbad ↦ h.step_bad e hbad) es (Registry.Inv.init mtu w tcpBase tcpSize)

/-- A connection accepted into an entry whose memory is not tagged, and its callback. -/
theorem not_always_of_untagged {s : Registry} (h : s.Inv) {c : TcpSetup} {j k : ℕ}
    {env : AcceptEnv} (hj : j < s.tcpSize) (htag : (s.w.tcpPool (s.tcpBase + j)).proto ≠ .tcp)
    (hport : (c.node (s.w.nodes k)).port ≠ 0xFFFF) (hring : s.w.circleBuffer = true)
    (hcalloc : env.results.calloc = true) :
    ¬ Always registryStep Registry.AllWellLinked s
      [.setUp c j k, .tcpCb .acception env (s.tcpBase + j)] := by
  set a := s.tcpBase + j with ha
  obtain ⟨t, ht, htcp, hnodes, hringt, hbase, hsize⟩ : ∃ t, registryStep s (.setUp c j k) = some t ∧
      t.w.tcpPool a = c.tcpNode k (s.w.tcpPool a) ∧ t.w.nodes k = c.node (s.w.nodes k) ∧
      t.w.circleBuffer = s.w.circleBuffer ∧ t.tcpBase = s.tcpBase ∧ t.tcpSize = s.tcpSize := by
    refine ⟨s.setUp c j k, if_pos hj, ?_, ?_, rfl, rfl, rfl⟩
    · exact Function.update_self _ _ _
    · exact Function.update_self _ _ _
  have hcb : t.w.cb (.tcp a) = some (c.tcpNode k (s.w.tcpPool a)) := congrArg some htcp
  let conn : Connection t.w := ⟨.tcp a, _, k, hcb, c.tcpNode_node k _⟩
  obtain ⟨p, hp⟩ : ∃ p, conn.entry .tcp = some p := by
    refine getRecnoSlot_isSome_iff.2 ?_
    rw [Connection.port, hnodes]
    exact hport
  obtain ⟨w', hw', -⟩ := onAcceptionConnectionCb_spec env conn hp
  have hu : registryStep t (.tcpCb .acception env a) = some { t with w := w' } := by
    have hcall : (TrunkCb.acception.call .tcp env t.w (.tcp a)).process = some w' := hw'
    rw [registryStep, hcall, Option.map_some]
  intro hA
  refine (h.setUp_step ht).step_bad _ (fun hok ↦ ?_) hu
    ((always_cons_some hu).1 ((always_cons_some ht).1 hA).2).2
  have hentry : t.w.entryOf .tcp (.tcp a) = some p := by
    rw [Process.entryOf, hcb, Option.bind_some, c.tcpNode_node, Option.bind_some]
    exact hp
  have htagged := hok p hentry (.inr ⟨hringt.trans hring, hcalloc⟩)
  have hin : t.tcpBase ≤ a ∧ a < t.tcpBase + t.tcpSize := by rw [hbase, hsize]; omega
  rw [Registry.tag, Registry.cb, if_pos hin, htcp, Option.map_some, c.tcpNode_proto] at htagged
  exact htag (Option.some.inj htagged)

/-- The tables after `start_tcp_socket` and `start_session_connection`: zeroed pools and a ring. -/
def startedProcess (mtu : MtuProfile) : Process where
  nodes _ := .zero mtu
  tcpPool _ := .zero mtu
  cap _ := .zero mtu
  recno _ := .zero mtu
  circleBuffer := true

/-- A connection accepted on descriptor 7 from port 40000 of 10.0.0.1, whose callback finds memory:
its session lives, and its link leads to a node without a tag. -/
theorem not_allWellLinked_accepted :
    let listener := { ProtocolBaseCb.zero .mtu1500 with
      nodeCfg := { Node.zero .mtu1500 with fd := 3, family := .ipv4 } }
    ¬ Always registryStep Registry.AllWellLinked
      (.init .mtu1500 (startedProcess .mtu1500) 0 0x400)
      [.setUp (.accept listener 7 ⟨0x409C, [10, 0, 0, 1]⟩) 0 0,
        .tcpCb .acception (acceptEnv true) 0] := by
  intro listener
  have hport : (TcpSetup.node (.accept listener 7 ⟨0x409C, [10, 0, 0, 1]⟩)
      (.zero .mtu1500)).port = 40000 := by rfl
  exact not_always_of_untagged (.init .mtu1500 (startedProcess .mtu1500) 0 0x400) (by decide)
    (by decide) (by rw [show (Registry.init .mtu1500 (startedProcess .mtu1500) 0 0x400).w.nodes 0 =
      .zero .mtu1500 from rfl, hport]; decide) rfl rfl

end DmmrOrbit
