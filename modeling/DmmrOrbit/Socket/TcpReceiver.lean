import DmmrOrbit.Lib.Transition
import DmmrOrbit.Node.Drain
import DmmrOrbit.Socket.Net

/-!
# The TCP receiver thread

`tcp_receiver_thread` of `socket_tcp.c`.  A turn of its loop acquires a receive slot, reads into it
with `readv` and, unless the result says otherwise, runs the receive callback.  The input of a turn
is what `readv` returned and how many nodes the callback takes off the manager afterwards.

The result of `readv` is stored in `value_size`, an unsigned field, before it is tested.  So `-1`
becomes `0xFFFFFFFF`: the test `value_size <= 0` holds for the result 0 only, the branch behind
`value_size < 0`, with its `switch` over `errno`, is never entered, and a failed read goes on to
the callback like a successful one.  The null that `get_free_node` returns for a full manager is
not tested at all.

`tcpReceiverThread_sound_iff` is the exact statement: what the loop promises holds throughout a run
if and only if the results are `Paced` — no read fails, and the callback keeps up.
-/

set_option autoImplicit false

namespace DmmrOrbit

open Transition

variable {mtu : MtuProfile}

/-! ## The loop -/

/-- What `readv` returned: a positive number of bytes, at most the `VALUE_BUFFER_SIZE` it was asked
for, the end of the stream, or `-1`. -/
inductive Readv (mtu : MtuProfile)
  | bytes (b : List UInt8) (pos : 0 < b.length) (le : b.length ≤ mtu.valueBufferSize)
  | eof
  | error (errno : Errno)

namespace Readv

/-- The `ssize_t`. -/
def ret : Readv mtu → Int
  | bytes b _ _ => b.length
  | eof => 0
  | error _ => -1

/-- The bytes a successful call stored. -/
def stored : Readv mtu → Option (List UInt8)
  | bytes b _ _ => some b
  | eof => none
  | error _ => none

end Readv

/-- One turn's input: the result of `readv` and the number of `get_buzy_node` calls the callback
makes when it is run. -/
structure ReadvTurn (mtu : MtuProfile) where
  result : Readv mtu
  taken : ℕ

/-- The receiver thread at the head of its loop.  `live` is cleared when the loop is left and
`fault` is set by the use of a null pointer.  The last two fields are the history: for each slot
the bytes its latest `readv` stored, and the latest result together with the manager as it was
when `on_receive_cb` was called on it, if it was. -/
structure TcpReceiver (mtu : MtuProfile) where
  node : TcpNode
  live : Bool
  fault : Bool
  stored : Fin 256 → Option (List UInt8)
  last : Option (Readv mtu × Option NodeRecvManager)

/-- The node of a slot after `n->value_size = readv(…)`. -/
def readInto (r : Readv mtu) (n : Node) : Node :=
  { n with valueSize := UInt32.ofInt r.ret, value := overlay (r.stored.getD []) n.value }

/-- `tcp_receiver_thread` up to its loop, on a connection that `accept_thread` or
`connect_tcp_server` set up: `run` is set and the manager is initialised. -/
def tcpReceiverThread (mtu : MtuProfile) (node : TcpNode) : TcpReceiver mtu where
  node := { node with run := true, recvManager := initNodeRecvManager node.recvManager }
  live := true
  fault := false
  stored _ := none
  last := none

/-- One turn of the loop. -/
def tcpReceiverStep (s : TcpReceiver mtu) (e : ReadvTurn mtu) : Option (TcpReceiver mtu) :=
  if s.live && !s.fault then
    match getFreeNode s.node.recvManager with
    | (none, _) => some { s with fault := true, last := none }
    | (some pos, m) =>
      let n := readInto e.result (m.buffer pos).node
      let m := m.storeNode pos n
      let turn (m : NodeRecvManager) (live : Bool) (seen : Option NodeRecvManager) :=
        some { s with
          node := { s.node with recvManager := m }
          live := live
          stored := Function.update s.stored pos e.result.stored
          last := some (e.result, seen) }
      if n.valueSize ≤ 0 then
        if n.valueSize < 0 then
          match e.result with
          | .error errno =>
            if errno.temporary then turn (recicleNode m pos) s.node.run none
            else turn m false none
          | _ => turn m false none
        else turn m false none
      else turn (drain e.taken m).2 s.node.run (some m)
  else none

/-! ## What the loop promises -/

/-- The node shows what the read into its slot stored. -/
def Received (mtu : MtuProfile) (stored : Option (List UInt8)) (n : Node) : Prop :=
  ∃ b, stored = some b ∧ 1 ≤ b.length ∧ b.length ≤ mtu.valueBufferSize ∧
    n.valueSize.toNat = b.length ∧ n.value.take b.length = b

/-- The promise of the loop, as it stands after a turn. -/
structure TcpReceiver.Sound (s : TcpReceiver mtu) : Prop where
  /-- Every node the callback can take comes from a successful read. -/
  visible : ∀ r m, s.last = some (r, some m) → ∀ pos, (m.buffer pos).nodeBufferStatus = true →
    Received mtu (s.stored pos) (m.buffer pos).node
  /-- `EAGAIN` and `EINTR` show no node, and the loop goes on. -/
  temporary : ∀ e seen, s.last = some (.error e, seen) → e.temporary = true →
    seen = none ∧ s.live = true
  /-- Any other error ends the loop. -/
  fatal : ∀ e seen, s.last = some (.error e, seen) → e.temporary = false → s.live = false
  /-- So does the end of the stream. -/
  eof : ∀ seen, s.last = some (.eof, seen) → s.live = false
  /-- No null pointer is used. -/
  noFault : s.fault = false

/-- The inputs under which the loop keeps its promise, when `p` slots are busy at its head: there
is a free slot for each read, and no read fails. -/
def Paced : ℕ → List (ReadvTurn mtu) → Prop
  | _, [] => True
  | p, ⟨.bytes _ _ _, taken⟩ :: es => p < 256 ∧ Paced (p + 1 - taken) es
  | p, ⟨.eof, _⟩ :: _ => p < 256
  | _, ⟨.error _, _⟩ :: _ => False

/-- The same, for a single turn. -/
def TcpReceiver.TurnOk (s : TcpReceiver mtu) (e : ReadvTurn mtu) : Prop :=
  countNode s.node.recvManager < 256 ∧ ∀ errno, e.result ≠ .error errno

/-! ## The unsigned result -/

/-- A successful read fits the field. -/
theorem received_readInto {b : List UInt8} (pos : 0 < b.length)
    (le : b.length ≤ mtu.valueBufferSize) (n : Node) :
    Received mtu (some b) (readInto (.bytes b pos le) n) ∧
      ¬ (readInto (.bytes b pos le) n).valueSize ≤ 0 := by
  have hmtu : mtu.valueBufferSize ≤ 8920 := by cases mtu <;> decide
  have hlen : (readInto (.bytes b pos le) n).valueSize.toNat = b.length := by
    show (UInt32.ofInt (b.length : Int)).toNat = b.length
    rw [UInt32.ofInt, UInt32.toNat_ofNat']
    omega
  refine ⟨⟨b, rfl, pos, le, hlen, take_overlay b n.value⟩, fun h ↦ ?_⟩
  rw [UInt32.le_iff_toNat_le, hlen] at h
  exact absurd h (by simpa using Nat.ne_of_gt pos)

/-- The failed read does not look like one: `value_size` is `0xFFFFFFFF`. -/
theorem readInto_error_valueSize (e : Errno) (n : Node) :
    (readInto (.error e : Readv mtu) n).valueSize = 0xFFFFFFFF := rfl

/-! ## One turn -/

/-- What the loop keeps: `q` are the busy slots, and each shows a successful read. -/
structure TcpReceiver.Inv (s : TcpReceiver mtu) (q : List (Fin 256)) : Prop where
  outstanding : Outstanding s.node.recvManager q
  run : s.node.run = true
  received : s.live = true → ∀ pos ∈ q,
    Received mtu (s.stored pos) (s.node.recvManager.buffer pos).node
  sound : s.Sound

namespace TcpReceiver.Inv

variable {s t : TcpReceiver mtu} {q : List (Fin 256)}

theorem init (mtu : MtuProfile) (node : TcpNode) : (tcpReceiverThread mtu node).Inv [] := by
  refine ⟨.init _, rfl, fun _ pos hpos ↦ absurd hpos (by simp), ?_⟩
  exact ⟨fun _ _ h ↦ absurd h (by simp [tcpReceiverThread]),
    fun _ _ h ↦ absurd h (by simp [tcpReceiverThread]),
    fun _ _ h ↦ absurd h (by simp [tcpReceiverThread]),
    fun _ h ↦ absurd h (by simp [tcpReceiverThread]), rfl⟩

/-- With every slot busy the thread uses the null pointer it is given. -/
theorem full_step (h : s.Inv q) (hfull : q.length = 256) {e : ReadvTurn mtu}
    (hs : tcpReceiverStep s e = some t) : t.fault = true := by
  rw [tcpReceiverStep, h.outstanding.getFreeNode_full hfull] at hs
  split at hs
  · obtain rfl := Option.some.inj hs; rfl
  · exact absurd hs (by simp)

/-- A failed read is shown to the callback, and the loop goes on. -/
theorem error_step (h : s.Inv q) (hlt : q.length < 256) {e : Errno} {taken : ℕ}
    (hs : tcpReceiverStep s ⟨.error e, taken⟩ = some t) :
    t.live = true ∧ ∃ m, t.last = some (.error e, some m) := by
  rw [tcpReceiverStep] at hs
  split at hs
  · obtain ⟨m, hg, -⟩ := h.outstanding.getFreeNode_spec hlt
    rw [hg] at hs
    simp only [readInto_error_valueSize] at hs
    rw [if_neg (by decide)] at hs
    obtain rfl := Option.some.inj hs
    exact ⟨h.run, _, rfl⟩
  · exact absurd hs (by simp)

/-- The end of the stream ends the loop, before the callback sees anything. -/
theorem eof_step (h : s.Inv q) (hlt : q.length < 256) {taken : ℕ}
    (hs : tcpReceiverStep s ⟨.eof, taken⟩ = some t) : t.live = false ∧ ∃ r, t.Inv r := by
  rw [tcpReceiverStep] at hs
  split at hs
  · obtain ⟨m, hg, hm, -⟩ := h.outstanding.getFreeNode_spec hlt
    rw [hg] at hs
    simp only at hs
    rw [if_pos (by exact UInt32.le_refl _), if_neg (by exact UInt32.lt_irrefl _)] at hs
    obtain rfl := Option.some.inj hs
    refine ⟨rfl, _, hm.fill _ _, h.run, fun hl ↦ absurd hl (by simp), ?_⟩
    exact ⟨fun _ _ hr ↦ by simp at hr, fun _ _ hr ↦ by simp at hr, fun _ _ hr ↦ by simp at hr,
      fun _ _ ↦ rfl, h.sound.noFault⟩
  · exact absurd hs (by simp)

/-- A successful read is shown to the callback behind the ones it has not taken yet. -/
theorem bytes_step (h : s.Inv q) (hlt : q.length < 256) {b : List UInt8} {pos : 0 < b.length}
    {le : b.length ≤ mtu.valueBufferSize} {taken : ℕ}
    (hs : tcpReceiverStep s ⟨.bytes b pos le, taken⟩ = some t) :
    t.live = true ∧ ∃ r, t.Inv r ∧ r.length = q.length + 1 - taken := by
  rw [tcpReceiverStep] at hs
  split at hs
  · next hl =>
    obtain ⟨m, hg, hm, hnode⟩ := h.outstanding.getFreeNode_spec hlt
    rw [hg] at hs
    set p := s.node.recvManager.nextFreeIndex
    obtain ⟨hrec, hsize⟩ := received_readInto pos le (m.buffer p).node
    simp only [if_neg hsize] at hs
    obtain rfl := Option.some.inj hs
    set n := readInto (.bytes b pos le) (m.buffer p).node
    have hfill := hm.fill p n
    obtain ⟨-, hrest, hkeep⟩ := hfill.drain_spec taken
    have hread : ∀ i ∈ q ++ [p], Received mtu
        (Function.update s.stored p (some b) i) ((m.storeNode p n).buffer i).node := by
      intro i hi
      by_cases hip : i = p
      · subst hip; rw [m.storeNode_node, if_pos rfl, Function.update_self]; exact hrec
      · have hiq : i ∈ q := by simpa [hip] using hi
        rw [m.storeNode_node, if_neg hip, Function.update_of_ne hip, hnode]
        exact h.received (by simp at hl; exact hl.1) i hiq
    refine ⟨h.run, (q ++ [p]).drop taken, ⟨hrest, h.run, fun _ i hi ↦ ?_, ?_⟩, ?_⟩
    · show Received mtu _ ((drain taken (m.storeNode p n)).2.buffer i).node
      rw [hkeep]
      exact hread i (List.mem_of_mem_drop hi)
    · refine ⟨fun r m' hr i hi ↦ ?_, fun _ _ hr ↦ by simp at hr, fun _ _ hr ↦ by simp at hr,
        fun _ hr ↦ by simp at hr, h.sound.noFault⟩
      obtain ⟨-, rfl⟩ : _ ∧ m.storeNode p n = m' := by simpa using hr
      exact hread i ((hfill.status i).1 hi)
    · rw [List.length_drop, List.length_append, List.length_singleton]
  · exact absurd hs (by simp)

/-- While the loop runs, every turn is taken. -/
theorem step_isSome (h : s.Inv q) (hl : s.live = true) (hlt : q.length < 256)
    (e : ReadvTurn mtu) : ∃ t, tcpReceiverStep s e = some t := by
  obtain ⟨m, hg, -⟩ := h.outstanding.getFreeNode_spec hlt
  rw [tcpReceiverStep, if_pos (by rw [hl, h.sound.noFault]; rfl), hg]
  obtain ⟨r, taken⟩ := e
  cases r with
  | bytes b pos le =>
    simp only
    rw [if_neg (received_readInto pos le _).2]
    exact ⟨_, rfl⟩
  | eof => exact ⟨_, rfl⟩
  | error e => exact ⟨_, rfl⟩

/-- A well-paced turn keeps the invariant. -/
theorem turn (h : s.Inv q) (e : ReadvTurn mtu) (hok : s.TurnOk e)
    (hs : tcpReceiverStep s e = some t) : ∃ r, t.Inv r := by
  obtain ⟨hlt, herr⟩ := hok
  rw [h.outstanding.countNode_eq] at hlt
  obtain ⟨r, taken⟩ := e
  cases r with
  | bytes b pos le =>
    obtain ⟨-, r, hr, -⟩ := h.bytes_step hlt hs
    exact ⟨r, hr⟩
  | eof => exact (h.eof_step hlt hs).2
  | error e => exact absurd rfl (herr e)

/-- An ill-paced turn breaks the promise at once. -/
theorem turn_bad (h : s.Inv q) (e : ReadvTurn mtu) (hbad : ¬ s.TurnOk e)
    (hs : tcpReceiverStep s e = some t) : ¬ t.Sound := by
  intro hsound
  rcases Nat.lt_or_eq_of_le h.outstanding.length_le with hlt | hfull
  · obtain ⟨r, taken⟩ := e
    cases r with
    | error e =>
      obtain ⟨hlive, m, hlast⟩ := h.error_step hlt hs
      cases he : e.temporary with
      | true => exact absurd (hsound.temporary e _ hlast he).1 (by simp)
      | false => exact absurd (hsound.fatal e _ hlast he) (by simp [hlive])
    | bytes b pos le => exact hbad ⟨by rw [h.outstanding.countNode_eq]; exact hlt, by simp⟩
    | eof => exact hbad ⟨by rw [h.outstanding.countNode_eq]; exact hlt, by simp⟩
  · exact absurd hsound.noFault (by simp [h.full_step hfull hs])

end TcpReceiver.Inv

/-! ## Whole runs -/

/-- Turn by turn, the pace is `Paced`. -/
theorem guarded_iff_paced (es : List (ReadvTurn mtu)) {s : TcpReceiver mtu} {q : List (Fin 256)}
    (h : s.Inv q) (hl : s.live = true) :
    Guarded tcpReceiverStep TcpReceiver.TurnOk s es ↔ Paced q.length es := by
  induction es generalizing s q with
  | nil => exact Iff.rfl
  | cons e es ih =>
    have hcount := h.outstanding.countNode_eq
    by_cases hlt : q.length < 256
    · obtain ⟨t, ht⟩ := h.step_isSome hl hlt e
      rw [guarded_cons_some ht, TcpReceiver.TurnOk, hcount]
      obtain ⟨r, taken⟩ := e
      cases r with
      | bytes b pos le =>
        obtain ⟨hlive, r, hr, hlen⟩ := h.bytes_step hlt ht
        rw [Paced, ← hlen, ih hr hlive]
        simp
      | eof =>
        obtain ⟨hdead, -⟩ := h.eof_step hlt ht
        have hrest : Guarded tcpReceiverStep TcpReceiver.TurnOk t es := by
          cases es with
          | nil => trivial
          | cons e es => exact guarded_cons_none (by rw [tcpReceiverStep, hdead]; rfl)
        rw [Paced]
        simp [hrest]
      | error e => rw [Paced]; simp
    · have hfull : q.length = 256 := by have := h.outstanding.length_le; omega
      have hstep : tcpReceiverStep s e = some { s with fault := true, last := none } := by
        rw [tcpReceiverStep, if_pos (by rw [hl, h.sound.noFault]; rfl),
          h.outstanding.getFreeNode_full hfull]
      rw [guarded_cons_some hstep, TcpReceiver.TurnOk, hcount]
      obtain ⟨r, taken⟩ := e
      cases r <;> simp [Paced, hlt]

/-- **The TCP receiver keeps its promise exactly on paced results.**  For every sequence of `readv`
results and every callback: the nodes the callback can take come from successful reads and show
what was read, a temporary error shows none and continues, any other error or the end of the stream
ends the loop, and no null pointer is used — if and only if no read fails before the loop ends and
every read finds a free slot. -/
theorem tcpReceiverThread_sound_iff (mtu : MtuProfile) (node : TcpNode)
    (es : List (ReadvTurn mtu)) :
    Always tcpReceiverStep TcpReceiver.Sound (tcpReceiverThread mtu node) es ↔ Paced 0 es := by
  have hinit := TcpReceiver.Inv.init mtu node
  rw [always_iff_guarded (fun s : TcpReceiver mtu ↦ ∃ q, s.Inv q) (fun _ ⟨_, h⟩ ↦ h.sound)
    (fun _ e _ ⟨_, h⟩ hok ↦ h.turn e hok) (fun _ e _ ⟨_, h⟩ hbad ↦ h.turn_bad e hbad) es
    ⟨[], hinit⟩]
  exact guarded_iff_paced es hinit rfl

/-- A connection reset on the first read: the loop goes on, and the callback finds a node of
4294967295 bytes. -/
theorem tcpReceiverThread_not_sound :
    ¬ Always tcpReceiverStep TcpReceiver.Sound (tcpReceiverThread .mtu1500 (.zero .mtu1500))
      [⟨.error .econnreset, 257⟩] := by
  intro hA
  have h := TcpReceiver.Inv.init .mtu1500 (.zero .mtu1500)
  obtain ⟨t, ht⟩ := h.step_isSome rfl (by decide) ⟨.error .econnreset, 257⟩
  exact h.turn_bad _ (fun hok ↦ hok.2 _ rfl) ht ((always_cons_some ht).1 hA).2

end DmmrOrbit
