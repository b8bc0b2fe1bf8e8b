import Mathlib.Logic.Function.Basic
import DmmrOrbit.CircleBuffer.Ring
import DmmrOrbit.Structs

/-!
# The session table

`recno` of `session_connection.c`: 0xFFFF rows of two entries each, one for UDP and one for TCP, and
the row is the remote port.  `getRecnoSlot` goes to the entry of a port and a protocol,
`linkSessionPorts` (of `funcs.h`) notes the two ports in it, and `insertSession` gives it a pool and
a worker.

A port is a `uint16_t` and may be 0xFFFF, for which there is no row; `getRecnoSlot` is `none` there,
where the source goes on with an address past the table.

`insertSession` asks the ring for its current node, and `get_current_node` calls itself for ever.
So a call of it either returns `EOF` or does not return (`insertSession_spec`), and `Call.running`
is the state such a call is in from then on.
-/

set_option autoImplicit false

namespace DmmrOrbit

/-! ## The tables -/

/-- An entry of `recno`: its row and its column. -/
abbrev RecnoIndex := Fin 0xFFFF × ProtoArr

/-- The tables the callbacks work on: the node pool, the pool of `tcp_node`s, `cap`, the session
table, and whether `start_session_connection` was given a circle buffer. -/
structure Process where
  nodes : ℕ → Node
  tcpPool : ℕ → TcpNode
  cap : ℕ → ProtocolBaseCb
  recno : RecnoIndex → SessionConnectionPool Node
  circleBuffer : Bool

/-- How a call stands: it has returned, it is in a call that has not returned, or it has gone
through a null pointer or past the end of a table. -/
inductive Call (α : Type)
  | returned (ret : α) (w : Process)
  | running (w : Process)
  | fault

/-- The tables as the call has left them so far. -/
def Call.process {α : Type} : Call α → Option Process
  | .returned _ w => some w
  | .running w => some w
  | .fault => none

/-- `get_recno_slot`. -/
def getRecnoSlot (port : UInt16) (proto : ProtoArr) : Option RecnoIndex :=
  if h : port.toNat < 0xFFFF then some (⟨port.toNat, h⟩, proto) else none

namespace Process

/-- What a `union protocol_base_cb *` points at. -/
def cb (w : Process) : CbPtr → Option ProtocolBaseCb
  | .cap i => some (w.cap i)
  | .tcp i => some (w.tcpPool i)
  | .session port proto => (getRecnoSlot port proto).map fun p ↦ (w.recno p).session

def setEntry (w : Process) (p : RecnoIndex) (entry : SessionConnectionPool Node) : Process :=
  { w with recno := Function.update w.recno p entry }

end Process

/-! ## The functions of the source -/

/-- The port of the union's node, 0 without one. -/
def nodePort (w : Process) (u : ProtocolBaseCb) : UInt16 :=
  match u.node with
  | some k => (w.nodes k).port
  | none => 0

/-- `link_session_ports`.  The cases for TCP and for UDP read the same fields. -/
def linkSessionPorts (w : Process) (p : RecnoIndex) (u : ProtocolBaseCb) : Process :=
  match u.proto with
  | .none => w.setEntry p { w.recno p with port := 0, linkedPort := 0 }
  | .tcp | .udp =>
    w.setEntry p { w.recno p with
      port := nodePort w u
      linkedPort := match u.linked.bind w.cb with
        | some linked => nodePort w linked
        | none => 0 }

/-- What `insert_session` gets from outside: whether `calloc` finds memory, and what
`pthread_create` returns. -/
structure InsertResults where
  calloc : Bool
  pthreadCreate : ℤ

/-- `insert_session`, with `fuel` calls of `get_current_node`. -/
def insertSession (mtu : MtuProfile) (results : InsertResults) (fuel : ℕ) (w : Process)
    (p : RecnoIndex) : Call ℤ :=
  let session := w.recno p
  if !w.circleBuffer then .returned eof w
  else if !results.calloc then .returned eof (w.setEntry p { session with pool := [] })
  else
    let session := { session with
      pool := List.replicate 0x400 (.zero mtu), poolSize := 0x400, poolCount := 0, run := true }
    match getCurrentNode fuel with
    | none => .running (w.setEntry p session)
    | some cursor =>
      .returned results.pthreadCreate (w.setEntry p { session with cursor := cursor })

/-! ## One entry and the rest -/

/-- Everything but the entry `p` of the session table is the same. -/
structure Process.AgreeExcept (p : RecnoIndex) (w w' : Process) : Prop where
  nodes : w'.nodes = w.nodes
  tcpPool : w'.tcpPool = w.tcpPool
  cap : w'.cap = w.cap
  circleBuffer : w'.circleBuffer = w.circleBuffer
  recno : ∀ q, q ≠ p → w'.recno q = w.recno q

namespace Process

variable {p : RecnoIndex} {w w' w'' : Process}

theorem AgreeExcept.refl (p : RecnoIndex) (w : Process) : AgreeExcept p w w :=
  ⟨rfl, rfl, rfl, rfl, fun _ _ ↦ rfl⟩

theorem AgreeExcept.trans (h : AgreeExcept p w w') (h' : AgreeExcept p w' w'') :
    AgreeExcept p w w'' where
  nodes := h'.nodes.trans h.nodes
  tcpPool := h'.tcpPool.trans h.tcpPool
  cap := h'.cap.trans h.cap
  circleBuffer := h'.circleBuffer.trans h.circleBuffer
  recno q hq := (h'.recno q hq).trans (h.recno q hq)

theorem agreeExcept_setEntry (w : Process) (p : RecnoIndex) (entry : SessionConnectionPool Node) :
    AgreeExcept p w (w.setEntry p entry) :=
  ⟨rfl, rfl, rfl, rfl, fun _ hq ↦ Function.update_of_ne hq _ _⟩

@[simp] theorem setEntry_recno_self (w : Process) (p : RecnoIndex)
    (entry : SessionConnectionPool Node) : (w.setEntry p entry).recno p = entry :=
  Function.update_self _ _ _

end Process

/-- Two ports have one entry for a protocol only if they are equal. -/
theorem getRecnoSlot_inj {port port' : UInt16} {proto : ProtoArr} {p : RecnoIndex}
    (h : getRecnoSlot port proto = some p) (h' : getRecnoSlot port' proto = some p) :
    port = port' := by
  rw [getRecnoSlot] at h h'
  split at h
  · split at h'
    · rw [← Option.some.inj h'] at h
      have hrow := congrArg (fun q : RecnoIndex ↦ q.1.val) (Option.some.inj h)
      exact UInt16.toNat_inj.1 hrow
    · exact absurd h' (by simp)
  · exact absurd h (by simp)

/-- Only the port 0xFFFF has no entry. -/
theorem getRecnoSlot_isSome_iff {port : UInt16} {proto : ProtoArr} :
    (∃ p, getRecnoSlot port proto = some p) ↔ port ≠ 0xFFFF := by
  have hlt := port.toNat_lt
  have hne : port ≠ 0xFFFF ↔ port.toNat ≠ 0xFFFF := not_congr UInt16.toNat_inj.symm
  rw [getRecnoSlot, hne]
  constructor
  · rintro ⟨p, hp⟩
    split at hp
    · next h => exact Nat.ne_of_lt h
    · exact absurd hp (by simp)
  · intro h
    rw [dif_pos (show port.toNat < 0xFFFF by omega)]
    exact ⟨_, rfl⟩

/-- `link_session_ports` writes the entry's ports only. -/
theorem linkSessionPorts_spec (w : Process) (p : RecnoIndex) (u : ProtocolBaseCb) :
    Process.AgreeExcept p w (linkSessionPorts w p u) ∧
      ((linkSessionPorts w p u).recno p).session = (w.recno p).session := by
  rw [linkSessionPorts]
  split
  all_goals exact ⟨w.agreeExcept_setEntry p _, by rw [w.setEntry_recno_self]⟩

theorem linkSessionPorts_run (w : Process) (p : RecnoIndex) (u : ProtocolBaseCb) :
    ((linkSessionPorts w p u).recno p).run = (w.recno p).run := by
  rw [linkSessionPorts]
  split
  all_goals rw [w.setEntry_recno_self]

/-- `insert_session` never returns 0.  Returned or not, it has written the one entry, and not its
session. -/
theorem insertSession_spec (mtu : MtuProfile) (results : InsertResults) (fuel : ℕ) (w : Process)
    (p : RecnoIndex) :
    ∃ w', (insertSession mtu results fuel w p = .returned eof w' ∨
        insertSession mtu results fuel w p = .running w') ∧
      Process.AgreeExcept p w w' ∧ (w'.recno p).session = (w.recno p).session := by
  rw [insertSession, getCurrentNode_eq_none]
  by_cases hring : w.circleBuffer
  · rw [if_neg (by simp [hring])]
    by_cases hcalloc : results.calloc
    · rw [if_neg (by simp [hcalloc])]
      exact ⟨_, .inr rfl, w.agreeExcept_setEntry p _, by rw [w.setEntry_recno_self]⟩
    · rw [if_pos (by simp [hcalloc])]
      exact ⟨_, .inl rfl, w.agreeExcept_setEntry p _, by rw [w.setEntry_recno_self]⟩
  · rw [if_pos (by simp [hring])]
    exact ⟨w, .inl rfl, .refl p w, rfl⟩

/-- It sets the entry's `run` flag as soon as there are a ring and memory, and never clears it. -/
theorem insertSession_run {mtu : MtuProfile} {results : InsertResults} {fuel : ℕ} {w w' : Process}
    {p : RecnoIndex} (h : (insertSession mtu results fuel w p).process = some w') :
    (w'.recno p).run = true ↔
      (w.recno p).run = true ∨ w.circleBuffer = true ∧ results.calloc = true := by
  rw [insertSession, getCurrentNode_eq_none] at h
  by_cases hring : w.circleBuffer
  · rw [if_neg (by simp [hring])] at h
    by_cases hcalloc : results.calloc
    · rw [if_neg (by simp [hcalloc])] at h
      obtain rfl := Option.some.inj h
      rw [w.setEntry_recno_self]
      exact iff_of_true rfl (.inr ⟨hring, hcalloc⟩)
    · rw [if_pos (by simp [hcalloc])] at h
      obtain rfl := Option.some.inj h
      rw [w.setEntry_recno_self]
      simp [hcalloc]
  · rw [if_pos (by simp [hring])] at h
    obtain rfl := Option.some.inj h
    simp [hring]

/-! ## Where a session starts to read -/

/-- What a call of `insert_session` is to do for the entry, if allocation and thread creation
succeed: it returns 0 after some calls of `get_current_node`, and leaves a running session with the
ring's cursor and a pool of 0x400 zeroed nodes, none of them in use. -/
def StartsAt (mtu : MtuProfile) (w : Process) (p : RecnoIndex) (cursor : Option ℕ) : Prop :=
  ∃ fuel w', insertSession mtu ⟨true, 0⟩ fuel w p = .returned 0 w' ∧
    (w'.recno p).cursor = cursor ∧ (w'.recno p).pool = List.replicate 0x400 (.zero mtu) ∧
    (w'.recno p).poolSize = 0x400 ∧ (w'.recno p).poolCount = 0 ∧ (w'.recno p).run = true

theorem not_startsAt (mtu : MtuProfile) (w : Process) (p : RecnoIndex) (cursor : Option ℕ) :
    ¬ StartsAt mtu w p cursor := by
  rintro ⟨fuel, w', hret, -⟩
  obtain ⟨u, heof | hrun, -⟩ := insertSession_spec mtu ⟨true, 0⟩ fuel w p
  · rw [heof, Call.returned.injEq] at hret
    exact absurd hret.1 (by decide)
  · rw [hrun] at hret
    exact absurd hret (by simp)

/-- **No session ever starts.**  Whatever the ring's cursor, for every entry of every session table
and with a ring: `insert_session` does not return 0, however many calls of `get_current_node` it is
given, because that one never returns. -/
theorem insertSession_never_starts (mtu : MtuProfile) (w : Process) (p : RecnoIndex)
    (cursor : Option ℕ) :
    ¬ StartsAt mtu { w with circleBuffer := true } p cursor ∧
      ¬ ∃ fuel current, getCurrentNode fuel = some current :=
  ⟨not_startsAt mtu _ p cursor, fun ⟨fuel, _, hsome⟩ ↦
    absurd ((getCurrentNode_eq_none fuel).symm.trans hsome) (by simp)⟩

/-- The process after `start_session_connection` was given a ring, with all its tables zeroed. -/
def Process.zero (mtu : MtuProfile) : Process where
  nodes _ := .zero mtu
  tcpPool _ := .zero mtu
  cap _ := .zero mtu
  recno _ := .zero mtu
  circleBuffer := true

/-- The first session of the program, on a ring whose cursor is at the first entry. -/
theorem first_insertSession_fails : ¬ StartsAt .mtu1500 (.zero .mtu1500) (0, .udp) (some 0) :=
  not_startsAt _ _ _ _

end DmmrOrbit
