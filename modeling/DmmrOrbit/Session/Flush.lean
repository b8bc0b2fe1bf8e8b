import DmmrOrbit.Session.SessionPool
import DmmrOrbit.Socket.Send

/-!
# What leaves the pool and what leaves the machine

Two functions take nodes out of a session's pool, `process_session_node` and `sched_trigger_snd`,
and both decide by themselves how many.  How many are sent is decided behind the `void` dispatcher:
six at most, and of those as many bytes as the socket accepts.  `NoSilentLoss` is what should hold
of such a step, and `sessionPool_noSilentLoss_iff` says when it does: only if the socket takes
everything it is given of the batch, and the nodes past the sixth are empty.
-/

set_option autoImplicit false

namespace DmmrOrbit

/-- From the pool `before` to the pool `after` the socket has accepted `accepted`: the payloads of a
prefix of the nodes, in order, and the other nodes are still there. -/
def NoSilentLoss (before after : List Node) (accepted : List UInt8) : Prop :=
  ∃ removed kept, before = removed ++ kept ∧ after.Perm kept ∧
    accepted = removed.flatMap Node.payload

/-- A step that leaves the pool alone and sends nothing loses nothing. -/
theorem noSilentLoss_idle (before : List Node) : NoSilentLoss before before [] :=
  ⟨[], before, rfl, .refl _, rfl⟩

/-- A step that takes the batch `b` out of the pool and sends what the senders make of it is right
exactly when the batch is covered. -/
theorem noSilentLoss_iff_covered (b : List Node) {rest after : List Node} (hafter : after.Perm rest)
    (r : SendResult) : NoSilentLoss (b ++ rest) after (transmitted b r) ↔ Covered b r := by
  rw [← transmitted_eq_iff]
  constructor
  · rintro ⟨removed, kept, hbefore, hkept, hsent⟩
    -- the lengths tell that what was removed is the batch
    have hlen : rest.length = kept.length := hafter.symm.length_eq.trans hkept.length_eq
    obtain ⟨rfl, -⟩ := List.append_inj' hbefore hlen
    exact hsent
  · intro hsent
    exact ⟨b, rest, rfl, hafter, hsent⟩

section

variable (mtu : MtuProfile) (nodePool : ℕ → Node) {conn : SessionConnectionPool Node}

/-- Of a pool that a node was appended to, a flush keeps all but the first `count` nodes. -/
theorem live_compact_append (h : conn.Wf) (hroom : conn.poolCount < conn.poolSize) (n : Node)
    {count : ℕ} (hcount : count ≤ (conn.append n).poolCount) :
    ((conn.append n).compact id nodePool count).live.Perm ((conn.live ++ [n]).drop count) := by
  rw [← h.live_append hroom n]
  exact (h.append hroom n).live_compact hcount id nodePool

/-- A node that the session accepts joins its pool: what is passed on and what is kept are the nodes
there were and the new one. -/
theorem processSessionNode_appends (h : conn.Wf) (hroom : conn.poolCount < conn.poolSize)
    {n : Node} (hacc : conn.Accepts nodePool n) :
    let out := processSessionNode mtu id nodePool conn n
    (out.2 ++ out.1.live).Perm (conn.live ++ [n]) := by
  intro out
  rcases processSessionNode_cases h hroom mtu id hacc with ⟨-, hout⟩ | ⟨count, -, -, hcount, hout⟩
  · simp only [out, hout, List.nil_append, h.live_append hroom n]
    exact .refl _
  · have hall := (live_compact_append nodePool h hroom n hcount).append_left
      ((conn.live ++ [n]).take count)
    rw [List.take_append_drop] at hall
    simp only [out, hout]
    exact hall

/-- `process_session_node` loses nothing exactly when the node is not the session's, or brings no
flush, or the batch of the flush is covered. -/
theorem processSessionNode_noSilentLoss_iff (h : conn.Wf) (hroom : conn.poolCount < conn.poolSize)
    (n : Node) (r : SendResult) {u : ProtocolBaseCb} (hu : u.proto ≠ .none) :
    let out := processSessionNode mtu id nodePool conn n
    NoSilentLoss (if conn.Accepts nodePool n then conn.live ++ [n] else conn.live) out.1.live
        (dispatcher (some u) out.2 out.2.length r) ↔
      (conn.Accepts nodePool n → ∀ count, (conn.append n).flushBatch mtu id = some count →
        Covered ((conn.live ++ [n]).take count) r) := by
  intro out
  by_cases hacc : conn.Accepts nodePool n
  · rw [if_pos hacc]
    rcases processSessionNode_cases h hroom mtu id hacc with
      ⟨hf, hout⟩ | ⟨count, hf, -, hcount, hout⟩
    · rw [hf]
      simp only [out, hout, h.live_append hroom n]
      exact iff_of_true (noSilentLoss_idle _) fun _ count hc ↦ absurd hc (by simp)
    · have hiff := noSilentLoss_iff_covered ((conn.live ++ [n]).take count)
        (live_compact_append nodePool h hroom n hcount) r
      rw [List.take_append_drop] at hiff
      rw [hf]
      simp only [out, hout, dispatcher_eq_transmitted hu]
      rw [hiff]
      exact ⟨fun hc _ count' heq ↦ Option.some.inj heq ▸ hc, fun hc ↦ hc hacc count rfl⟩
  · have hout : out = (conn, []) := processSessionNode_of_not_accepts hacc
    rw [if_neg hacc, hout]
    exact iff_of_true (noSilentLoss_idle _) fun hc ↦ absurd hc hacc

/-- `sched_trigger_snd` on a linked session loses nothing exactly when the whole pool is covered. -/
theorem schedTriggerSnd_noSilentLoss_iff (zero : Node) (sc : SchedulerConnection) (r : SendResult)
    {p : CbPtr} (hlink : getSessionPointer conn.session = some p) {u : ProtocolBaseCb}
    (hu : u.proto ≠ .none) :
    let out := (schedTriggerSnd zero sc conn).2
    NoSilentLoss conn.live out.1.live (dispatcher (some u) out.2 out.2.length r) ↔
      Covered conn.live r := by
  intro out
  have hout : out = ({ conn with pool := conn.pool.map fun _ ↦ zero, poolCount := 0 },
      conn.live) := by
    simp only [out, schedTriggerSnd, hlink]
  rw [hout, dispatcher_eq_transmitted hu]
  have hiff := noSilentLoss_iff_covered conn.live (.refl []) r
  rw [List.append_nil] at hiff
  exact hiff

/-- **Nothing is lost silently exactly when the batch is covered.**  For every pool of a session
that is linked to a TCP or UDP connection, every node at its cursor and every result of the send
call:

* `process_session_node`, which is called on a pool that has room, loses nothing if and only if the
  node is not the session's, or brings no flush, or the socket accepts all of the first six nodes of
  the batch and the others are empty;
* `sched_trigger_snd` loses nothing if and only if the same holds of the whole pool. -/
theorem sessionPool_noSilentLoss_iff (cbs : CbPtr → ProtocolBaseCb) (h : conn.Wf) {p : CbPtr}
    (hlink : getSessionPointer conn.session = some p) (hproto : (cbs p).proto ≠ .none)
    (n zero : Node) (sc : SchedulerConnection) (r : SendResult) :
    let u := (getSessionPointer conn.session).map cbs
    let flush := processSessionNode mtu id nodePool conn n
    let trigger := (schedTriggerSnd zero sc conn).2
    (conn.poolCount < conn.poolSize →
      (NoSilentLoss (if conn.Accepts nodePool n then conn.live ++ [n] else conn.live) flush.1.live
          (dispatcher u flush.2 flush.2.length r) ↔
        (conn.Accepts nodePool n → ∀ count, (conn.append n).flushBatch mtu id = some count →
          Covered ((conn.live ++ [n]).take count) r))) ∧
    (NoSilentLoss conn.live trigger.1.live (dispatcher u trigger.2 trigger.2.length r) ↔
      Covered conn.live r) := by
  intro u flush trigger
  have hu : u = some (cbs p) := by simp only [u, hlink, Option.map_some]
  rw [hu]
  exact ⟨fun hroom ↦ processSessionNode_noSilentLoss_iff mtu nodePool h hroom n r hproto,
    schedTriggerSnd_noSilentLoss_iff zero sc r hlink hproto⟩

end

/-! ## A session with five full nodes -/

def packetNode : Node := { Node.zero .mtu1500 with valueSize := 1420 }

/-- A TCP session, linked to a connection, with a pool of eight cells. -/
def fiveFullNodes : SessionConnectionPool Node where
  run := true
  port := 4000
  linkedPort := 4001
  poolSize := 8
  poolCount := 5
  pool := List.replicate 8 packetNode
  cursor := some 0
  session := { ProtocolBaseCb.zero .mtu1500 with
    proto := .tcp, node := some 0, linked := some (.tcp 0) }

/-- The sixth node of its peer brings a flush, of all six; the trigger finds the five.  The socket
takes all there is. -/
theorem sessionPool_noSilentLoss_six :
    let u : ProtocolBaseCb := { ProtocolBaseCb.zero .mtu1500 with proto := .tcp }
    let flush := processSessionNode .mtu1500 id (fun _ ↦ packetNode) fiveFullNodes packetNode
    let trigger := (schedTriggerSnd (.zero .mtu1500) ⟨0, 0, 0⟩ fiveFullNodes).2
    NoSilentLoss (fiveFullNodes.live ++ [packetNode]) flush.1.live
        (dispatcher (some u) flush.2 flush.2.length (.sent 8520)) ∧
      NoSilentLoss fiveFullNodes.live trigger.1.live
        (dispatcher (some u) trigger.2 trigger.2.length (.sent 8520)) := by
  intro u flush trigger
  have hwf : fiveFullNodes.Wf := ⟨rfl, by decide, by decide⟩
  have hacc : fiveFullNodes.Accepts (fun _ ↦ packetNode) packetNode := by decide +kernel
  have hflush : (fiveFullNodes.append packetNode).flushBatch .mtu1500 id = some 6 := by
    decide +kernel
  obtain ⟨hprocess, htrigger⟩ := sessionPool_noSilentLoss_iff .mtu1500 (fun _ ↦ packetNode)
    (fun _ ↦ u) hwf rfl (by decide) packetNode (.zero .mtu1500) ⟨0, 0, 0⟩ (.sent 8520)
  have hprocess := hprocess (by decide)
  rw [if_pos hacc] at hprocess
  refine ⟨hprocess.2 fun _ count hcount ↦ ?_, htrigger.2 ⟨by decide +kernel, by decide +kernel⟩⟩
  obtain rfl := Option.some.inj (hflush.symm.trans hcount)
  exact ⟨by decide +kernel, by decide +kernel⟩

/-! ## A session with one-byte nodes -/

def oneByteNode (mtu : MtuProfile) : Node := { Node.zero mtu with valueSize := 1, value := [7] }

/-- A TCP session, linked to a connection, with `k` one-byte nodes in its pool. -/
def oneByteSession (mtu : MtuProfile) (k : ℕ) : SessionConnectionPool Node where
  run := true
  port := 4000
  linkedPort := 4001
  poolSize := 0x400
  poolCount := k
  pool := List.replicate 0x400 (oneByteNode mtu)
  cursor := some 0
  session := { ProtocolBaseCb.zero mtu with proto := .tcp, linked := some (.tcp 0) }

theorem oneByteSession_live (mtu : MtuProfile) {k : ℕ} (hk : k < 0x400) :
    (oneByteSession mtu k).live = List.replicate k (oneByteNode mtu) := by
  show (List.replicate 0x400 (oneByteNode mtu)).take k = _
  rw [List.take_replicate, Nat.min_eq_left (Nat.le_of_lt hk)]

/-- Seven nodes of one byte, and a socket that takes every byte it is given: the trigger sends six
of them and clears the pool. -/
theorem sessionPool_silentLoss :
    let conn := oneByteSession .mtu1500 7
    let trigger := (schedTriggerSnd (.zero .mtu1500) ⟨0, 0, 0⟩ conn).2
    ¬ NoSilentLoss conn.live trigger.1.live
      (dispatcher (some { ProtocolBaseCb.zero .mtu1500 with proto := .tcp }) trigger.2
        trigger.2.length (.sent 6)) := by
  intro conn trigger hno
  have hcovered := (schedTriggerSnd_noSilentLoss_iff (.zero .mtu1500) ⟨0, 0, 0⟩ (.sent 6) rfl
    (by decide)).1 hno
  rw [oneByteSession_live _ (by decide)] at hcovered
  exact absurd (hcovered.2 _ (.head _)) (by decide)

end DmmrOrbit
