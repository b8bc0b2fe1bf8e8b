import DmmrOrbit.Socket.Endpoint

/-!
# An accept set-up that fails

`start_acception` gets a protocol record, marks it with its protocol and starts the service.  Two
exits are before the mark: there is no record, or the host is not resolved.  Behind it nothing takes
the mark off again, whichever call fails; `delete_union_protocol_base_cb`, which would, is called
from nowhere.  `start_udp_service` sets `run` before its first call, and leaves the socket open when
there is no thread; `start_tcp_service` looks for the descriptor to close through `node->node`,
which a record of `cap` does not have.

So `leavesNothing_iff`: a set-up leaves nothing behind exactly if it succeeds, or ends at one of the
two early exits with a record that was as free as it should be.
-/

set_option autoImplicit false

namespace DmmrOrbit

open Attempt

/-! ## The services -/

/-- Every call of the service of a protocol goes well. -/
def SysResults.Grants (r : SysResults) : Proto → Prop
  | .udp => r.socket ≠ eof ∧ r.bind = 0 ∧ r.pthreadCreate = 0
  | .tcp => r.socket ≠ eof ∧ r.setFlags = 0 ∧ r.setsockopt = 0 ∧ r.bind = 0 ∧ r.listen = 0 ∧
      r.pthreadCreate = 0
  | .none => False

section

/-- The mark of the record is the one of `node`. -/
def ServiceEnd.KeepsProto (node : ProtocolBaseCb) (e : ServiceEnd) : Prop :=
  e.node.proto = node.proto

/-- The service is started. -/
def ServiceEnd.Started (e : ServiceEnd) : Prop := e.ending = .returned 0

theorem ServiceEnd.not_started {e : ServiceEnd} (h : e.ending = .returned eof) : ¬ e.Started := by
  rw [ServiceEnd.Started, h]
  decide

variable {r : SysResults} {nodes : ℕ → Node} {node : ProtocolBaseCb} {cfg : Node}
  {label rest : Run SysCall ServiceEnd}

theorem result_bindNode (P : ServiceEnd → Prop) (hlabel : P label.result) (hrest : P rest.result) :
    P (bindNode r cfg label rest).result := by
  unfold bindNode
  split
  · exact result_attempt P hlabel hrest
  · exact result_attempt P hlabel hrest
  · exact hrest
  · exact hrest

theorem result_bindNode_iff (P : ServiceEnd → Prop) (hlabel : ¬ P label.result)
    (hfamily : cfg.family = .ipv4 ∨ cfg.family = .ipv6) :
    P (bindNode r cfg label rest).result ↔ r.bind = 0 ∧ P rest.result := by
  unfold bindNode
  rcases hfamily with h | h
  · rw [h]
    exact result_attempt_iff P hlabel
  · rw [h]
    exact result_attempt_iff P hlabel

/-- No exit of `start_udp_service` takes the mark off. -/
theorem startUdpService_proto : (startUdpService r node).result.node.proto = node.proto := by
  exact result_attempt (ServiceEnd.KeepsProto node) rfl
    (result_bindNode (ServiceEnd.KeepsProto node) rfl rfl)

theorem startUdpService_returned_iff
    (hfamily : node.nodeCfg.family = .ipv4 ∨ node.nodeCfg.family = .ipv6) :
    (startUdpService r node).result.ending = .returned 0 ↔ r.Grants .udp := by
  show ServiceEnd.Started (startUdpService r node).result ↔ _
  rw [startUdpService, result_attempt_iff _ (ServiceEnd.not_started rfl),
    result_bindNode_iff _ (ServiceEnd.not_started rfl)]
  · simp [ServiceEnd.Started, SysResults.Grants]
  · exact hfamily

/-- The exit for a thread that could not be created does not return 0. -/
theorem closeNode_ending : (closeNode nodes node).result.ending ≠ .returned 0 := by
  unfold closeNode
  cases node.node with
  | some k => exact (by decide : Ending.returned eof ≠ .returned 0)
  | none => exact (by decide : Ending.nullPointer ≠ .returned 0)

theorem closeNode_node : (closeNode nodes node).result.node = node := by
  unfold closeNode
  cases node.node <;> rfl

/-- Nor does one of `start_tcp_service`. -/
theorem startTcpService_proto : (startTcpService r nodes node).result.node.proto = node.proto := by
  refine result_attempt (ServiceEnd.KeepsProto node) rfl ?_
  rw [result_call]
  refine result_attempt (ServiceEnd.KeepsProto node) rfl ?_
  refine result_attempt (ServiceEnd.KeepsProto node) rfl ?_
  refine result_bindNode (ServiceEnd.KeepsProto node) rfl ?_
  refine result_attempt (ServiceEnd.KeepsProto node) rfl ?_
  refine result_attempt (ServiceEnd.KeepsProto node) ?_ rfl
  show (closeNode nodes _).result.node.proto = node.proto
  rw [closeNode_node]
  rfl

theorem startTcpService_returned_iff
    (hfamily : node.nodeCfg.family = .ipv4 ∨ node.nodeCfg.family = .ipv6) :
    (startTcpService r nodes node).result.ending = .returned 0 ↔ r.Grants .tcp := by
  show ServiceEnd.Started (startTcpService r nodes node).result ↔ _
  rw [startTcpService, result_attempt_iff _ (ServiceEnd.not_started rfl), result_call,
    result_attempt_iff _ (ServiceEnd.not_started rfl),
    result_attempt_iff _ (ServiceEnd.not_started rfl),
    result_bindNode_iff _ (ServiceEnd.not_started rfl),
    result_attempt_iff _ (ServiceEnd.not_started rfl),
    result_attempt_iff ServiceEnd.Started closeNode_ending]
  · simp [ServiceEnd.Started, SysResults.Grants]
  · exact hfamily

end

/-! ## The set-up -/

/-- What is promised of a set-up.  It meets no null pointer; and if it returns anything but 0, the
record is free and not running, and each descriptor has been closed once. -/
structure LeavesNothing (r : Run SysCall AcceptEnd) : Prop where
  noFault : r.result.ending ≠ .nullPointer
  freed : ∀ ret, r.result.ending = .returned ret → ret ≠ 0 →
    ∀ i cb, r.result.obtained = some (i, cb) → cb.proto = .none
  stopped : ∀ ret, r.result.ending = .returned ret → ret ≠ 0 →
    ∀ i cb, r.result.obtained = some (i, cb) → cb.run = false
  closed : ∀ ret, r.result.ending = .returned ret → ret ≠ 0 →
    ∀ domain type fd, .socket domain type fd ∈ r.calls → fd ≠ eof → r.calls.count (.close fd) = 1

/-- A set-up that goes well does. -/
theorem LeavesNothing.of_returned {r : Run SysCall AcceptEnd}
    (h : r.result.ending = .returned 0) : LeavesNothing r := by
  have hret (ret : ℤ) (hend : r.result.ending = .returned ret) : ret = 0 := by
    rw [h] at hend
    exact (Ending.returned.inj hend).symm
  refine ⟨fun hnull ↦ ?_, fun ret hend hne ↦ absurd (hret ret hend) hne,
    fun ret hend hne ↦ absurd (hret ret hend) hne, fun ret hend hne ↦ absurd (hret ret hend) hne⟩
  rw [h] at hnull
  exact absurd hnull (by simp)

/-- The set-ups that succeed, or end before they have marked a record. -/
def Unmarked (env : EndpointEnv) (cap : Pool ProtocolBaseCb) (p : Proto) (ip : List UInt8) :
    Prop :=
  p ≠ .none → ∀ cb, obtainCb cap env.cap = some cb →
    if (env.getaddrinfo ip).resolved = none then cb.proto = .none ∧ cb.run = false
    else env.sys.Grants p

variable {env : EndpointEnv} {nodes : ℕ → Node} {cap cap' : Pool ProtocolBaseCb} {p : Proto}
  {port : UInt16} {ip : List UInt8}

/-- A branch of `start_acception`, of whose service is known that no exit takes the mark off and
when it returns 0. -/
theorem startAcceptionBranch_leavesNothing_iff (hp : p ≠ .none)
    {service : ProtocolBaseCb → Run SysCall ServiceEnd}
    (hproto : ∀ node, (service node).result.node.proto = node.proto)
    (hreturned : ∀ node : ProtocolBaseCb,
      node.nodeCfg.family = .ipv4 ∨ node.nodeCfg.family = .ipv6 →
        ((service node).result.ending = .returned 0 ↔ env.sys.Grants p)) :
    LeavesNothing (startAcceptionBranch p service env cap port ip) ↔ Unmarked env cap p ip := by
  cases hget : getUnionProtocolBaseCb cap env.cap with | mk r cap' =>
  cases r with
  | none =>
    rw [startAcceptionBranch_of_none hget]
    have hnone := obtainCb_of_none hget
    refine ⟨fun _ _ cb hcb ↦ absurd (hnone.symm.trans hcb) (by simp), fun _ ↦ ?_⟩
    exact ⟨by simp, by simp, by simp, by simp⟩
  | some i =>
    have hsome := obtainCb_of_some hget
    cases hres : (env.getaddrinfo ip).resolved with
    | none =>
      rw [startAcceptionBranch_of_unresolved hget hres]
      constructor
      · intro h _ cb hcb
        obtain rfl := Option.some.inj (hsome.symm.trans hcb)
        rw [if_pos hres]
        exact ⟨h.freed eof rfl (by decide) i _ rfl, h.stopped eof rfl (by decide) i _ rfl⟩
      · intro h
        have hfree := h hp _ hsome
        rw [if_pos hres] at hfree
        refine ⟨by simp, fun _ _ _ j cb hj ↦ ?_, fun _ _ _ j cb hj ↦ ?_, by simp⟩
        · obtain ⟨-, rfl⟩ := Prod.mk.inj (Option.some.inj hj)
          exact hfree.1
        · obtain ⟨-, rfl⟩ := Prod.mk.inj (Option.some.inj hj)
          exact hfree.2
    | some a =>
      rw [startAcceptionBranch_of_resolved hget hres]
      have hend0 := hreturned ((cap'.read env.cap i).configure p port a.family
        (env.buf.write a.toBytes)) a.family_eq
      constructor
      · intro h _ cb _
        rw [if_neg (by simp [hres])]
        refine hend0.1 ?_
        -- the record is marked, so only a set-up that succeeds may end like this
        cases hend : (service ((cap'.read env.cap i).configure p port a.family
            (env.buf.write a.toBytes))).result.ending with
        | nullPointer => exact absurd hend h.noFault
        | returned ret =>
          by_contra hret
          have hmark := h.freed ret hend (fun h0 ↦ hret (h0 ▸ rfl)) i _ rfl
          rw [hproto] at hmark
          exact hp hmark
      · intro h
        have hgrants := h hp _ hsome
        rw [if_neg (by simp [hres])] at hgrants
        exact .of_returned (hend0.2 hgrants)

/-- **What a set-up leaves behind.**  Whatever `dns2ipaddr` and the system calls answer,
`start_acception` leaves nothing behind if and only if it gets no record, or the host is not
resolved and the record was free and not running, or all of its calls go well. -/
theorem startAcception_leavesNothing_iff :
    LeavesNothing (startAcception env nodes cap p port ip) ↔ Unmarked env cap p ip := by
  cases p with
  | none =>
    refine ⟨fun _ hp ↦ absurd rfl hp, fun _ ↦ ?_⟩
    exact ⟨by simp [startAcception], by simp [startAcception], by simp [startAcception],
      by simp [startAcception]⟩
  | udp =>
    exact startAcceptionBranch_leavesNothing_iff (by decide) (fun _ ↦ startUdpService_proto)
      fun _ ↦ startUdpService_returned_iff
  | tcp =>
    exact startAcceptionBranch_leavesNothing_iff (by decide) (fun _ ↦ startTcpService_proto)
      fun _ ↦ startTcpService_returned_iff

/-- With the loopback address and a `listen` that fails, the record stays marked. -/
theorem startAcception_keeps_mark : ¬ ∀ (env : EndpointEnv) (nodes : ℕ → Node)
    (cap : Pool ProtocolBaseCb) (p : Proto) (port : UInt16) (ip : List UInt8),
      LeavesNothing (startAcception env nodes cap p port ip) := by
  intro h
  let env : EndpointEnv := { loopbackEnv with sys := { loopbackEnv.sys with listen := eof } }
  have hleaves := h env (fun _ ↦ .zero .mtu1500) loopbackPools.cap .tcp 80 (ascii "127.0.0.1")
  have hget : getUnionProtocolBaseCb loopbackPools.cap env.cap = (some 0, loopbackPools.cap) := rfl
  have hres : (env.getaddrinfo (ascii "127.0.0.1")).resolved = some loopback := rfl
  rw [startAcception, startAcceptionBranch_of_resolved hget hres] at hleaves
  have hmark := hleaves.freed eof rfl (by decide) 0 _ rfl
  rw [startTcpService_proto] at hmark
  exact absurd hmark (by decide)

end DmmrOrbit
