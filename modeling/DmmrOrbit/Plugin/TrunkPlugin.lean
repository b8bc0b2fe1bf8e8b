import DmmrOrbit.Session.SessionConnection

/-!
# The trunk plugin

The callbacks of `dmmr_trunk_plugin.c` for an accepted connection.  The callback copies the
connection's `tcp_node` (or `udp_node`) into the session of the entry that `get_recno_slot` has for
the *remote port*, links the two, and calls `insert_session`.  Nothing asks whether the entry is in
use, and nothing looks at the remote address: the first connection from a second peer that has
picked the same port takes the entry away from the one that has it
(`onAcceptionConnectionCb_takes_over`).

`onAcceptionConnectionCb_isolated_iff` says when one connection's entry survives the callback of
another: when their remote ports differ, and none of them is 0xFFFF, for which the table has no
entry.

`insert_session` never returns 0, so the callback does not get to `insert_scheduler` and the
dispatcher; they are parameters here, and everything holds whatever they are.
-/

set_option autoImplicit false

namespace DmmrOrbit

/-! ## The callback -/

/-- What a run of the callback gets from outside, and the two functions it calls when
`insert_session` has returned 0. -/
structure AcceptEnv where
  mtu : MtuProfile
  results : InsertResults
  /-- The calls of `get_current_node` that are followed. -/
  fuel : ℕ
  insertScheduler : Process → RecnoIndex → ℤ × Process
  socketCreateDispatcherFromUri : Process → Process

def ProtoArr.toProto : ProtoArr → Proto
  | udp => .udp
  | tcp => .tcp

/-- The lines that fill the session of an entry from the union `u`, which `input` points at. -/
def storeSession (proto : ProtoArr) (w : Process) (p : RecnoIndex) (u : ProtocolBaseCb)
    (input : CbPtr) : Process :=
  let session := { u with linked := some input, proto := proto.toProto }
  linkSessionPorts (w.setEntry p { w.recno p with session := session }) p session

/-- The body that the callbacks for the two protocols share.  `input` is not null. -/
def onAcceptionConnectionCb (proto : ProtoArr) (env : AcceptEnv) (w : Process) (input : CbPtr) :
    Call Unit :=
  match w.cb input with
  | none => .fault
  | some u =>
    match u.node with
    | none => .fault
    | some k =>
      match getRecnoSlot (w.nodes k).port proto with
      | none => .fault
      | some p =>
        match insertSession env.mtu env.results env.fuel (storeSession proto w p u input) p with
        | .returned ret w =>
          if ret = 0 then
            let (ret, w) := env.insertScheduler w p
            if ret = 0 then .returned () (env.socketCreateDispatcherFromUri w) else .returned () w
          else .returned () w
        | .running w => .running w
        | .fault => .fault

/-- `on_acception_connection_udp_cb`. -/
def onAcceptionConnectionUdpCb : AcceptEnv → Process → CbPtr → Call Unit :=
  onAcceptionConnectionCb .udp

/-- `on_acception_connection_tcp_cb`. -/
def onAcceptionConnectionTcpCb : AcceptEnv → Process → CbPtr → Call Unit :=
  onAcceptionConnectionCb .tcp

/-! ## Connections and their entries -/

/-- A connection: a pointer to a union with a node, as `accept_thread` sets it up. -/
structure Connection (w : Process) where
  ptr : CbPtr
  union : ProtocolBaseCb
  node : ℕ
  cb_eq : w.cb ptr = some union
  node_eq : union.node = some node

namespace Connection

variable {w : Process}

/-- The remote port. -/
def port (c : Connection w) : UInt16 := (w.nodes c.node).port

/-- The entry of the session table the connection is associated with. -/
def entry (c : Connection w) (proto : ProtoArr) : Option RecnoIndex := getRecnoSlot c.port proto

end Connection

/-- The connections `c₁` and `c₂` have different entries, and the entry of `c₁` is still what it was
when the call of the callback for `c₂` has come to stand as `call`. -/
def Isolated {w : Process} (proto : ProtoArr) (c₁ c₂ : Connection w) (call : Call Unit) : Prop :=
  ∃ p₁ p₂ w', c₁.entry proto = some p₁ ∧ c₂.entry proto = some p₂ ∧ p₁ ≠ p₂ ∧
    call.process = some w' ∧ w'.recno p₁ = w.recno p₁

section

variable {w : Process} {proto : ProtoArr} {p : RecnoIndex}

/-- Different entries belong to different ports, and to ports that have an entry. -/
theorem Isolated.ports {c₁ c₂ : Connection w} {call : Call Unit}
    (h : Isolated proto c₁ c₂ call) :
    c₁.port ≠ c₂.port ∧ c₁.port ≠ 0xFFFF ∧ c₂.port ≠ 0xFFFF := by
  obtain ⟨p₁, p₂, w', hp₁, hp₂, hne, -, -⟩ := h
  refine ⟨fun hports ↦ hne ?_, getRecnoSlot_isSome_iff.1 ⟨p₁, hp₁⟩,
    getRecnoSlot_isSome_iff.1 ⟨p₂, hp₂⟩⟩
  rw [Connection.entry, hports] at hp₁
  exact Option.some.inj (hp₁.symm.trans hp₂)

theorem storeSession_spec (proto : ProtoArr) (w : Process) (p : RecnoIndex) (u : ProtocolBaseCb)
    (input : CbPtr) :
    Process.AgreeExcept p w (storeSession proto w p u input) ∧
      ((storeSession proto w p u input).recno p).session =
        { u with linked := some input, proto := proto.toProto } := by
  rw [storeSession]
  obtain ⟨hagree, hsession⟩ := linkSessionPorts_spec
    (w.setEntry p { w.recno p with
      session := { u with linked := some input, proto := proto.toProto } }) p
    { u with linked := some input, proto := proto.toProto }
  refine ⟨(w.agreeExcept_setEntry p _).trans hagree, ?_⟩
  rw [hsession, w.setEntry_recno_self]

/-- The callback writes the connection's entry and nothing else, and the entry is then linked to
the connection. -/
theorem onAcceptionConnectionCb_spec (env : AcceptEnv) (c : Connection w)
    (hp : c.entry proto = some p) :
    ∃ w', (onAcceptionConnectionCb proto env w c.ptr).process = some w' ∧
      Process.AgreeExcept p w w' ∧ (w'.recno p).session.linked = some c.ptr := by
  obtain ⟨hstore, hsession⟩ := storeSession_spec proto w p c.union c.ptr
  obtain ⟨w', hcall, hinsert, hkept⟩ := insertSession_spec env.mtu env.results env.fuel
    (storeSession proto w p c.union c.ptr) p
  refine ⟨w', ?_, hstore.trans hinsert, by rw [hkept, hsession]⟩
  rw [Connection.entry, Connection.port] at hp
  rw [onAcceptionConnectionCb, c.cb_eq]
  simp only [c.node_eq, hp]
  -- whether `insert_session` has failed or is still running, nothing comes after it
  rcases hcall with hret | hrun
  · rw [hret]
    rfl
  · rw [hrun]
    rfl

/-- **An entry changes hands.**  When the entry of one connection is the entry of another one too,
the callback for the second links it to the second. -/
theorem onAcceptionConnectionCb_takes_over (env : AcceptEnv) (c₁ c₂ : Connection w)
    (hports : c₁.port = c₂.port) (hp : c₁.entry proto = some p) :
    ∃ w', (onAcceptionConnectionCb proto env w c₂.ptr).process = some w' ∧
      (w'.recno p).session.linked = some c₂.ptr := by
  rw [Connection.entry, hports] at hp
  obtain ⟨w', hw', -, hlinked⟩ := onAcceptionConnectionCb_spec env c₂ hp
  exact ⟨w', hw', hlinked⟩

end

/-- **An entry survives exactly the callbacks for other ports.**  Whatever the tables are, and
however far the callback gets: the connections have different entries and the first one's is left
alone by the callback for the second, if and only if the remote ports differ and none of them is
0xFFFF. -/
theorem onAcceptionConnectionCb_isolated_iff (proto : ProtoArr) (env : AcceptEnv) (w : Process)
    (c₁ c₂ : Connection w) :
    Isolated proto c₁ c₂ (onAcceptionConnectionCb proto env w c₂.ptr) ↔
      c₁.port ≠ c₂.port ∧ c₁.port ≠ 0xFFFF ∧ c₂.port ≠ 0xFFFF := by
  constructor
  · exact Isolated.ports
  · rintro ⟨hports, h₁, h₂⟩
    obtain ⟨p₁, hp₁⟩ : ∃ p₁, c₁.entry proto = some p₁ := getRecnoSlot_isSome_iff.2 h₁
    obtain ⟨p₂, hp₂⟩ : ∃ p₂, c₂.entry proto = some p₂ := getRecnoSlot_isSome_iff.2 h₂
    have hne : p₁ ≠ p₂ := by
      rintro rfl
      exact hports (getRecnoSlot_inj hp₁ hp₂)
    obtain ⟨w', hw', hagree, -⟩ := onAcceptionConnectionCb_spec env c₂ hp₂
    exact ⟨p₁, p₂, w', hp₁, hp₂, hne, hw', hagree.recno p₁ hne⟩

/-! ## Two peers with one port -/

/-- A process in which connections from 10.0.0.1 and 10.0.0.2 have been accepted, both from port
40000, and whose callbacks have not been called yet. -/
def twoPeers : Process where
  nodes k := { Node.zero .mtu1500 with
    fd := 7 + k, port := 40000, family := .ipv4
    ipv4 := overlay [10, 0, 0, UInt8.ofNat (k + 1)] (List.replicate 16 0) }
  tcpPool k := { ProtocolBaseCb.zero .mtu1500 with run := true, nodeCount := 1, node := some k }
  cap _ := .zero .mtu1500
  recno _ := .zero .mtu1500
  circleBuffer := true

/-- `calloc` as given; the callback gets no further than `insert_session`. -/
def acceptEnv (calloc : Bool) : AcceptEnv where
  mtu := .mtu1500
  results := ⟨calloc, 0⟩
  fuel := 1
  insertScheduler w _ := (0, w)
  socketCreateDispatcherFromUri w := w

/-- The first callback finds no memory for the pool and returns; the second one then overwrites the
session the first has stored. -/
theorem onAcceptionConnectionTcpCb_not_isolated :
    ∃ w₁, onAcceptionConnectionTcpCb (acceptEnv false) twoPeers (.tcp 0) = .returned () w₁ ∧
      ∃ c₁ c₂ : Connection w₁, c₁.ptr = .tcp 0 ∧ c₂.ptr = .tcp 1 ∧
        (w₁.nodes c₁.node).ipv4 ≠ (w₁.nodes c₂.node).ipv4 ∧
        ¬ Isolated .tcp c₁ c₂ (onAcceptionConnectionTcpCb (acceptEnv true) w₁ c₂.ptr) ∧
        ∃ p w₂, c₁.entry .tcp = some p ∧
          (onAcceptionConnectionTcpCb (acceptEnv true) w₁ c₂.ptr).process = some w₂ ∧
          (w₁.recno p).session.linked = some c₁.ptr ∧
          (w₂.recno p).session.linked = some c₂.ptr := by
  let p : RecnoIndex := (⟨40000, by decide⟩, .tcp)
  obtain ⟨w₁, hcall, hnodes, htcp, hlinked₁⟩ : ∃ w₁,
      onAcceptionConnectionTcpCb (acceptEnv false) twoPeers (.tcp 0) = .returned () w₁ ∧
        w₁.nodes = twoPeers.nodes ∧ w₁.tcpPool = twoPeers.tcpPool ∧
        (w₁.recno p).session.linked = some (.tcp 0) := ⟨_, rfl, rfl, rfl, rfl⟩
  let c₁ : Connection w₁ := ⟨.tcp 0, w₁.tcpPool 0, 0, rfl, by rw [htcp]; rfl⟩
  let c₂ : Connection w₁ := ⟨.tcp 1, w₁.tcpPool 1, 1, rfl, by rw [htcp]; rfl⟩
  have hports : c₁.port = c₂.port := by
    rw [Connection.port, Connection.port, hnodes]
    rfl
  have hp : c₁.entry .tcp = some p := by
    rw [Connection.entry, Connection.port, hnodes]
    rfl
  have haddr : (w₁.nodes c₁.node).ipv4 ≠ (w₁.nodes c₂.node).ipv4 := by
    rw [hnodes]
    exact (by decide : (twoPeers.nodes 0).ipv4 ≠ (twoPeers.nodes 1).ipv4)
  obtain ⟨w₂, hw₂, hlinked₂⟩ := onAcceptionConnectionCb_takes_over (acceptEnv true) c₁ c₂ hports hp
  exact ⟨w₁, hcall, c₁, c₂, rfl, rfl, haddr, fun h ↦ h.ports.1 hports, p, w₂, hp, hw₂, hlinked₁,
    hlinked₂⟩

end DmmrOrbit
