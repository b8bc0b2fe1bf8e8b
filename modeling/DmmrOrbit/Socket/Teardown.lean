import DmmrOrbit.Plugin.Links
import DmmrOrbit.Scheduler.Slots
import DmmrOrbit.Socket.Pools
import DmmrOrbit.Socket.TcpReceiver

/-!
# What is left of a TCP connection

A connection that `accept_thread` or `connect_tcp_server` sets up holds five things: a `tcp_node`, a
node, a descriptor and, once its callback has run, an entry of the session table and a slot of the
scheduler.  When `tcp_receiver_thread` leaves its loop it calls `on_close_cb`, which would give back
the last two, and `delete_node`.  But the set-up copies `on_receive_cb` only, so `on_close_cb` is
what the memory of the `tcp_node` held, null after `calloc`; nothing clears `run`, and nothing
closes the descriptor.

`tcpSystem_complete` has both halves of it: as long as no connection ends the occupied entries of
the two pools are as many as the connections, and no state in which one has ended is as promised.
-/

set_option autoImplicit false

namespace DmmrOrbit

open Transition

variable {mtu : MtuProfile}

/-! ## The system -/

/-- An element of `tcp_pool`, with the field that tells whether `on_close_cb` is set. -/
structure TcpPoolEntry where
  tn : TcpNode
  onCloseCb : Bool

def TcpPoolEntry.inUse (x : TcpPoolEntry) : Bool := TcpNode.inUse x.tn

def TcpPoolEntry.zero (mtu : MtuProfile) : TcpPoolEntry := ⟨.zero mtu, false⟩

/-- A connection whose receiver thread was started: its places in the pools, its descriptor, the
entry its callback went to, and whether the thread still runs. -/
structure TcpThread where
  tcp : ℕ
  node : ℕ
  fd : ℤ
  entry : Option RecnoIndex
  live : Bool

/-- The pools, the open descriptors of connections, the session table and the scheduler's slots in
use, and all connections so far. -/
structure TcpSystem (mtu : MtuProfile) where
  tcpPool : Pool TcpPoolEntry
  nodePool : Pool Node
  cap : ℕ → ProtocolBaseCb
  circleBuffer : Bool
  openFds : List ℤ
  recno : RecnoIndex → SessionConnectionPool Node
  sched : List (SchedulerSlot RecnoIndex)
  threads : List TcpThread

namespace TcpSystem

/-- After `start_tcp_socket`; the other tables are as they may be. -/
def start (mtu : MtuProfile) (cap : ℕ → ProtocolBaseCb) (circleBuffer : Bool)
    (recno : RecnoIndex → SessionConnectionPool Node) (sched : List (SchedulerSlot RecnoIndex)) :
    TcpSystem mtu where
  tcpPool := .calloc (.zero mtu)
  nodePool := .calloc (.zero mtu)
  cap := cap
  circleBuffer := circleBuffer
  openFds := []
  recno := recno
  sched := sched
  threads := []

/-- The tables as the callbacks see them. -/
def process (s : TcpSystem mtu) : Process where
  nodes k := s.nodePool.entries.getD k (.zero mtu)
  tcpPool i := (s.tcpPool.entries.getD i (.zero mtu)).tn
  cap := s.cap
  recno := s.recno
  circleBuffer := s.circleBuffer

/-- The part of `accept_thread` and `connect_tcp_server` that follows the new descriptor, up to the
callback.  `created` is whether `pthread_create` succeeds; nothing is undone if it does not. -/
def setUp (s : TcpSystem mtu) (c : TcpSetup) (nodeEnv : Realloc Node)
    (tcpEnv : Realloc TcpPoolEntry) (created : Bool) : TcpSystem mtu :=
  match getNode s.nodePool nodeEnv with
  | (none, nodePool) => { s with nodePool := nodePool } -- `close`
  | (some k, nodePool) =>
    let nodePool := nodePool.write k (c.node (nodePool.entries.getD k (.zero mtu)))
    match poolGet TcpPoolEntry.inUse s.tcpPool tcpEnv with
    | (none, tcpPool) => { s with nodePool := deleteNode mtu nodePool k, tcpPool := tcpPool }
    | (some i, tcpPool) =>
      let x := tcpPool.entries.getD i (.zero mtu)
      { s with
        nodePool := nodePool
        tcpPool := tcpPool.write i { x with tn := c.tcpNode k x.tn }
        openFds := c.fd :: s.openFds
        threads := if created then s.threads ++ [⟨i, k, c.fd, none, true⟩] else s.threads }

/-- The lines of `tcp_receiver_thread` behind `done:`.  `closed` is what `on_close_cb` makes of the
session table and the scheduler's slots. -/
def done (s : TcpSystem mtu) (j : ℕ) (c : TcpThread) (x : TcpPoolEntry)
    (closed : (RecnoIndex → SessionConnectionPool Node) × List (SchedulerSlot RecnoIndex)) :
    TcpSystem mtu :=
  { s with
    recno := if x.onCloseCb then closed.1 else s.recno
    sched := if x.onCloseCb then closed.2 else s.sched
    nodePool := match x.tn.node with
      | some k => deleteNode mtu s.nodePool k
      | none => s.nodePool
    threads := s.threads.set j { c with live := false } }

end TcpSystem

/-- What happens to the connections. -/
inductive TcpSystemEvent (mtu : MtuProfile)
  | setUp (c : TcpSetup) (nodeEnv : Realloc Node) (tcpEnv : Realloc TcpPoolEntry) (created : Bool)
  /-- The callback for the connection `j`. -/
  | callback (cb : TrunkCb) (env : AcceptEnv) (j : ℕ)
  /-- A turn of the receiver of the connection `j`. -/
  | receive (j : ℕ) (turn : ReadvTurn mtu)
      (closed : (RecnoIndex → SessionConnectionPool Node) × List (SchedulerSlot RecnoIndex))
  /-- `stop_tcp_socket` clears the `run` of an entry. -/
  | clearRun (i : ℕ)
  /-- Whatever the other threads do to the session table and to the scheduler's slots. -/
  | others (recno : RecnoIndex → SessionConnectionPool Node)
      (sched : List (SchedulerSlot RecnoIndex))

/-- One event.  The descriptor of a new connection is one that is not open. -/
def tcpSystemStep (s : TcpSystem mtu) : TcpSystemEvent mtu → Option (TcpSystem mtu)
  | .setUp c nodeEnv tcpEnv created =>
    if c.fd ∈ s.openFds then none else some (s.setUp c nodeEnv tcpEnv created)
  | .callback cb env j =>
    match s.threads[j]? with
    | none => none
    | some c =>
      (cb.call .tcp env s.process (.tcp c.tcp)).process.map fun w ↦
        let x := s.tcpPool.entries.getD c.tcp (.zero mtu)
        { s with
          recno := w.recno
          tcpPool := s.tcpPool.write c.tcp { x with tn := w.tcpPool c.tcp }
          threads := s.threads.set j
            { c with entry := s.process.entryOf .tcp (.tcp c.tcp) } }
  | .receive j turn closed =>
    match s.threads[j]? with
    | none => none
    | some c =>
      if c.live then
        let x := s.tcpPool.entries.getD c.tcp (.zero mtu)
        match tcpReceiverStep ⟨x.tn, true, false, fun _ ↦ none, none⟩ turn with
        | none => none
        | some r =>
          let x := { x with tn := r.node }
          let s := { s with tcpPool := s.tcpPool.write c.tcp x }
          if r.fault then none
          else if r.live then some s
          else some (s.done j c x closed)
      else none
  | .clearRun i =>
    match s.tcpPool.entries[i]? with
    | none => none
    | some x =>
      some { s with tcpPool := s.tcpPool.write i { x with tn := { x.tn with run := false } } }
  | .others recno sched => some { s with recno := recno, sched := sched }

/-! ## What is promised -/

namespace TcpSystem

/-- All that the connection held has been given back. -/
structure TornDown (s : TcpSystem mtu) (c : TcpThread) : Prop where
  reusable : ∃ x, s.tcpPool.entries[c.tcp]? = some x ∧ x.tn.run = false
  nodeFree : ∃ n, s.nodePool.entries[c.node]? = some n ∧ n.inUse = false
  closed : c.fd ∉ s.openFds
  cleared : ∀ p, c.entry = some p → s.recno p = .zero mtu
  unscheduled : ∀ p, c.entry = some p → ∀ slot ∈ s.sched, slot.sessionPtr ≠ some p

/-- Every connection whose thread has returned is torn down, and the occupied entries of both pools
are as many as the live connections. -/
structure Complete (s : TcpSystem mtu) : Prop where
  tornDown : ∀ c ∈ s.threads, c.live = false → s.TornDown c
  tcpNodes : s.tcpPool.entries.countP TcpPoolEntry.inUse = s.threads.countP TcpThread.live
  nodes : s.nodePool.entries.countP Node.inUse = s.threads.countP TcpThread.live

/-- The steps that go well: a set-up that finds free entries in both pools, gets a descriptor other
than 0 and starts its thread; and any other step by which no connection ends and no connection's
`run` is cleared. -/
def StepOk (s : TcpSystem mtu) : TcpSystemEvent mtu → Prop
  | .setUp c _ _ created =>
    (∃ n ∈ s.nodePool.entries, n.inUse = false) ∧ (∃ x ∈ s.tcpPool.entries, x.inUse = false) ∧
      c.fd ≠ 0 ∧ created = true
  | .callback _ _ _ => True
  | .receive j turn _ =>
    turn.result ≠ .eof ∧ ∀ c, s.threads[j]? = some c →
      (s.tcpPool.entries.getD c.tcp (.zero mtu)).inUse = true
  | .clearRun i => ∀ x, s.tcpPool.entries[i]? = some x → x.inUse = false
  | .others _ _ => True

instance (s : TcpSystem mtu) (e : TcpSystemEvent mtu) : Decidable (s.StepOk e) :=
  match e with
  | .setUp _ _ _ _ => inferInstanceAs (Decidable (_ ∧ _ ∧ _ ∧ _))
  | .receive j turn _ =>
    have : Decidable (turn.result = .eof) := match turn.result with
      | .eof => .isTrue rfl
      | .bytes _ _ _ | .error _ => .isFalse nofun
    inferInstanceAs (Decidable (_ ∧ ∀ c ∈ s.threads[j]?,
      (s.tcpPool.entries.getD c.tcp (.zero mtu)).inUse = true))
  | .clearRun i => inferInstanceAs (Decidable (∀ x ∈ s.tcpPool.entries[i]?, x.inUse = false))
  | .callback _ _ _ | .others _ _ => .isTrue trivial

end TcpSystem

/-! ## Counting entries -/

/-- A new value that counts as the old one did changes no count. -/
theorem countP_set_of_eq {α : Type} {q : α → Bool} {l : List α} {i : ℕ} {v : α}
    (h : ∀ x, l[i]? = some x → q v = q x) : (l.set i v).countP q = l.countP q := by
  by_cases hi : i < l.length
  · rw [countP_set_eq q hi, countP_eq_eraseIdx q hi, h _ (List.getElem?_eq_getElem hi)]
  · rw [List.set_eq_of_length_le (Nat.le_of_not_lt hi)]

/-- A free entry that is taken counts for one more. -/
theorem Pool.countP_write {α : Type} {inUse : α → Bool} {p : Pool α} {i : ℕ} {v : α}
    (h : (p.handout inUse i).Good) (hv : inUse v = true) :
    (p.write i v).entries.countP inUse = p.entries.countP inUse + 1 := by
  obtain ⟨hin, hfree⟩ := h
  have hi : i < p.entries.length := by simpa [Pool.handout] using hin
  have hfree : inUse p.entries[i] = false := by
    simpa [Pool.handout, List.getElem?_eq_getElem hi] using hfree
  rw [Pool.write, countP_set_eq inUse hi, countP_eq_eraseIdx inUse hi, hv, hfree]
  simp

/-! ## One step -/

/-- A turn of the receiver that does not end at a null pointer keeps the `tcp_node`'s `run`, and
goes on while that is set and the stream has not ended. -/
theorem tcpReceiverStep_spec {tn : TcpNode} {turn : ReadvTurn mtu} {r : TcpReceiver mtu}
    (h : tcpReceiverStep ⟨tn, true, false, fun _ ↦ none, none⟩ turn = some r)
    (hfault : r.fault = false) :
    r.node.run = tn.run ∧ (turn.result ≠ .eof → tn.run = true → r.live = true) := by
  simp only [tcpReceiverStep, Bool.not_false, Bool.and_self, if_true] at h
  split at h
  · obtain rfl := Option.some.inj h
    exact absurd hfault (by simp)
  · next pos m hg =>
    obtain ⟨result, taken⟩ := turn
    cases result with
    | bytes b hb le =>
      simp only at h
      rw [if_neg (received_readInto hb le _).2] at h
      obtain rfl := Option.some.inj h
      exact ⟨rfl, fun _ hrun ↦ hrun⟩
    | eof =>
      simp only at h
      rw [if_pos (by exact UInt32.le_refl _), if_neg (by exact UInt32.lt_irrefl _)] at h
      obtain rfl := Option.some.inj h
      exact ⟨rfl, fun heof ↦ absurd rfl heof⟩
    | error errno =>
      simp only [readInto_error_valueSize] at h
      rw [if_neg (by decide)] at h
      obtain rfl := Option.some.inj h
      exact ⟨rfl, fun _ hrun ↦ hrun⟩

namespace TcpSystem

variable {s t : TcpSystem mtu}

theorem setUp_spec {c : TcpSetup} {nodeEnv : Realloc Node} {tcpEnv : Realloc TcpPoolEntry}
    {created : Bool} (hs : tcpSystemStep s (.setUp c nodeEnv tcpEnv created) = some t) :
    c.fd ∉ s.openFds ∧ t = s.setUp c nodeEnv tcpEnv created := by
  rw [tcpSystemStep, Option.ite_none_left_eq_some] at hs
  exact ⟨hs.1, (Option.some.inj hs.2).symm⟩

/-- The callback sets the connection's entry, and of `tcp_pool` it writes the connection's own
element. -/
theorem callback_spec {cb : TrunkCb} {env : AcceptEnv} {j : ℕ}
    (hs : tcpSystemStep s (.callback cb env j) = some t) :
    ∃ c w', s.threads[j]? = some c ∧
      (cb.call .tcp env s.process (.tcp c.tcp)).process = some w' ∧
      t = { s with
        recno := w'.recno
        tcpPool := s.tcpPool.write c.tcp
          { s.tcpPool.entries.getD c.tcp (.zero mtu) with tn := w'.tcpPool c.tcp }
        threads := s.threads.set j
          { c with entry := s.process.entryOf .tcp (.tcp c.tcp) } } := by
  simp only [tcpSystemStep] at hs
  split at hs
  · exact absurd hs (by simp)
  · next c hc =>
    obtain ⟨w', hw', rfl⟩ := Option.map_eq_some_iff.1 hs
    exact ⟨c, w', hc, hw', rfl⟩

/-- A turn is one of a thread that runs, and `done` follows where the loop ends. -/
theorem receive_spec {j : ℕ} {turn : ReadvTurn mtu}
    {closed : (RecnoIndex → SessionConnectionPool Node) × List (SchedulerSlot RecnoIndex)}
    (hs : tcpSystemStep s (.receive j turn closed) = some t) :
    ∃ c r x, s.threads[j]? = some c ∧ c.live = true ∧
      tcpReceiverStep ⟨(s.tcpPool.entries.getD c.tcp (.zero mtu)).tn, true, false, fun _ ↦ none,
        none⟩ turn = some r ∧
      r.fault = false ∧
      x = { s.tcpPool.entries.getD c.tcp (.zero mtu) with tn := r.node } ∧
      (r.live = true ∧ t = { s with tcpPool := s.tcpPool.write c.tcp x } ∨
        r.live = false ∧
          t =
            ({ s with tcpPool := s.tcpPool.write c.tcp x } : TcpSystem mtu).done j c x closed) := by
  simp only [tcpSystemStep] at hs
  split at hs
  · exact absurd hs (by simp)
  · next c hc =>
    rw [Option.ite_none_right_eq_some] at hs
    obtain ⟨hrunning, hs⟩ := hs
    split at hs
    · exact absurd hs (by simp)
    · next r hr =>
      rw [Option.ite_none_left_eq_some] at hs
      obtain ⟨hfault, hs⟩ := hs
      refine ⟨c, r, _, hc, hrunning, hr, by simpa using hfault, rfl, ?_⟩
      split at hs
      · next hlive => exact .inl ⟨hlive, (Option.some.inj hs).symm⟩
      · next hlive => exact .inr ⟨by simpa using hlive, (Option.some.inj hs).symm⟩

theorem clearRun_spec {i : ℕ} (hs : tcpSystemStep s (.clearRun i) = some t) :
    ∃ x, s.tcpPool.entries[i]? = some x ∧
      t = { s with tcpPool := s.tcpPool.write i { x with tn := { x.tn with run := false } } } := by
  simp only [tcpSystemStep] at hs
  split at hs
  · exact absurd hs (by simp)
  · next x hx => exact ⟨x, hx, (Option.some.inj hs).symm⟩

/-- What is kept while no connection ends. -/
structure Inv (s : TcpSystem mtu) : Prop where
  tcpPool : s.tcpPool.Uncounted
  nodePool : s.nodePool.Uncounted
  live : ∀ c ∈ s.threads, c.live = true
  tcpNodes : s.tcpPool.entries.countP TcpPoolEntry.inUse = s.threads.countP TcpThread.live
  nodes : s.nodePool.entries.countP Node.inUse = s.threads.countP TcpThread.live

namespace Inv

theorem start (mtu : MtuProfile) (cap : ℕ → ProtocolBaseCb) (circleBuffer : Bool)
    (recno : RecnoIndex → SessionConnectionPool Node) (sched : List (SchedulerSlot RecnoIndex)) :
    (TcpSystem.start mtu cap circleBuffer recno sched).Inv := by
  refine ⟨.calloc _, .calloc _, fun c hc ↦ absurd hc List.not_mem_nil, ?_, ?_⟩
  · rw [TcpSystem.start, Pool.calloc, List.countP_nil, List.countP_eq_zero]
    intro x hx
    have hfree : (TcpPoolEntry.zero mtu).inUse = false := rfl
    rw [List.eq_of_mem_replicate hx, hfree]
    decide
  · rw [TcpSystem.start, Pool.calloc, List.countP_nil, List.countP_eq_zero]
    intro x hx
    have hfree : (Node.zero mtu).inUse = false := rfl
    rw [List.eq_of_mem_replicate hx, hfree]
    decide

theorem complete (h : s.Inv) : s.Complete :=
  ⟨fun c hc hdead ↦ absurd ((h.live c hc).symm.trans hdead) (by simp), h.tcpNodes, h.nodes⟩

/-- With free entries, a descriptor and a thread, a set-up takes one entry of each pool. -/
theorem setUp_step (h : s.Inv) {c : TcpSetup} {nodeEnv : Realloc Node}
    {tcpEnv : Realloc TcpPoolEntry} {created : Bool}
    (hok : s.StepOk (.setUp c nodeEnv tcpEnv created)) :
    (s.setUp c nodeEnv tcpEnv created).Inv := by
  obtain ⟨hnode, htcp, hfd, rfl⟩ := hok
  obtain ⟨k, hk, hkgood⟩ := Pool.Uncounted.get_of_free nodeEnv hnode
  obtain ⟨i, hi, higood⟩ := Pool.Uncounted.get_of_free tcpEnv htcp
  have hget : getNode s.nodePool nodeEnv = (some k, s.nodePool) := hk
  have hfill : (c.node (s.nodePool.entries.getD k (.zero mtu))).inUse = true := by
    rw [Node.inUse, c.node_fd]
    simpa using hfd
  set n := c.node (s.nodePool.entries.getD k (.zero mtu))
  set x : TcpPoolEntry := { s.tcpPool.entries.getD i (.zero mtu) with
    tn := c.tcpNode k (s.tcpPool.entries.getD i (.zero mtu)).tn } with hx
  have hrun : x.inUse = true := c.tcpNode_run k _
  have hset : s.setUp c nodeEnv tcpEnv true = { s with
      nodePool := s.nodePool.write k n
      tcpPool := s.tcpPool.write i x
      openFds := c.fd :: s.openFds
      threads := s.threads ++ [⟨i, k, c.fd, none, true⟩] } := by
    rw [setUp, hget]
    simp only [hi, if_true]
    rfl
  have hmore : (s.threads ++ [(⟨i, k, c.fd, none, true⟩ : TcpThread)]).countP TcpThread.live =
      s.threads.countP TcpThread.live + 1 := by
    rw [List.countP_append]
    rfl
  rw [hset]
  refine ⟨h.tcpPool.write _ _, h.nodePool.write _ _, fun d hd ↦ ?_, ?_, ?_⟩
  · rcases List.mem_append.1 hd with hold | hnew
    · exact h.live d hold
    · rw [List.mem_singleton.1 hnew]
  · exact (Pool.countP_write higood hrun).trans ((congrArg (· + 1) h.tcpNodes).trans hmore.symm)
  · exact (Pool.countP_write hkgood hfill).trans ((congrArg (· + 1) h.nodes).trans hmore.symm)

/-- Writing back an element of `tcp_pool` with the `run` it had. -/
theorem writeBack (h : s.Inv) {i : ℕ} {x : TcpPoolEntry}
    (hx : x.tn.run = (s.tcpPool.entries.getD i (.zero mtu)).tn.run) :
    (s.tcpPool.write i x).Uncounted ∧
      (s.tcpPool.write i x).entries.countP TcpPoolEntry.inUse =
        s.threads.countP TcpThread.live := by
  refine ⟨h.tcpPool.write _ _, ?_⟩
  rw [← h.tcpNodes]
  refine countP_set_of_eq fun x₀ hx₀ ↦ ?_
  rw [List.getD_eq_getElem?_getD, hx₀] at hx
  exact hx

theorem callback_step (h : s.Inv) {cb : TrunkCb} {env : AcceptEnv} {j : ℕ}
    (hs : tcpSystemStep s (.callback cb env j) = some t) : t.Inv := by
  obtain ⟨c, w', hc, hw', rfl⟩ := callback_spec hs
  obtain ⟨p, w₁, -, hre, hreg⟩ := cb.call_spec (by trivial) hw'
  have hrun : (w'.tcpPool c.tcp).run = (s.tcpPool.entries.getD c.tcp (.zero mtu)).tn.run := by
    rw [hreg.agree.tcpPool, hre.tcpRun]
    rfl
  have hcount : (s.threads.set j
      { c with entry := s.process.entryOf .tcp (.tcp c.tcp) }).countP TcpThread.live =
        s.threads.countP TcpThread.live := by
    refine countP_set_of_eq fun c₀ hc₀ ↦ ?_
    obtain rfl : c = c₀ := Option.some.inj (hc.symm.trans hc₀)
    rfl
  obtain ⟨hpool, htcp⟩ := h.writeBack
    (x := { s.tcpPool.entries.getD c.tcp (.zero mtu) with tn := w'.tcpPool c.tcp }) hrun
  refine ⟨hpool, h.nodePool, fun d hd ↦ ?_, htcp.trans hcount.symm, h.nodes.trans hcount.symm⟩
  rcases List.mem_or_eq_of_mem_set hd with hold | hnew
  · exact h.live d hold
  · rw [hnew]
    exact h.live c (List.mem_of_getElem? hc)

/-- A turn that does not end the loop. -/
theorem receive_step (h : s.Inv) {j : ℕ} {turn : ReadvTurn mtu}
    {closed : (RecnoIndex → SessionConnectionPool Node) × List (SchedulerSlot RecnoIndex)}
    (hok : s.StepOk (.receive j turn closed))
    (hs : tcpSystemStep s (.receive j turn closed) = some t) : t.Inv := by
  obtain ⟨hturn, hinUse⟩ := hok
  obtain ⟨c, r, x, hc, -, hr, hfault, hx, hend⟩ := receive_spec hs
  obtain ⟨hrun, hlive⟩ := tcpReceiverStep_spec hr hfault
  rcases hend with ⟨-, rfl⟩ | ⟨hdead, -⟩
  · have hkept : x.tn.run = (s.tcpPool.entries.getD c.tcp (.zero mtu)).tn.run := by
      rw [hx, hrun]
    obtain ⟨hpool, htcp⟩ := h.writeBack hkept
    exact ⟨hpool, h.nodePool, h.live, htcp, h.nodes⟩
  · exact absurd (hlive hturn (hinUse c hc)) (by simp [hdead])

theorem clearRun_step (h : s.Inv) {i : ℕ} (hok : s.StepOk (.clearRun i))
    (hs : tcpSystemStep s (.clearRun i) = some t) : t.Inv := by
  obtain ⟨x, hx, rfl⟩ := clearRun_spec hs
  have hfree : x.tn.run = false := hok x hx
  have hsame : ({ x with tn := { x.tn with run := false } } : TcpPoolEntry).tn.run =
      (s.tcpPool.entries.getD i (.zero mtu)).tn.run := by
    rw [List.getD_eq_getElem?_getD, hx]
    exact hfree.symm
  obtain ⟨hpool, htcp⟩ := h.writeBack hsame
  exact ⟨hpool, h.nodePool, h.live, htcp, h.nodes⟩

theorem step (h : s.Inv) (e : TcpSystemEvent mtu) (hok : s.StepOk e)
    (hs : tcpSystemStep s e = some t) : t.Inv := by
  cases e with
  | setUp c nodeEnv tcpEnv created =>
    obtain ⟨-, rfl⟩ := setUp_spec hs
    exact h.setUp_step hok
  | callback cb env j => exact h.callback_step hs
  | receive j turn closed => exact h.receive_step hok hs
  | clearRun i => exact h.clearRun_step hok hs
  | others recno sched =>
    obtain rfl := Option.some.inj hs
    exact ⟨h.tcpPool, h.nodePool, h.live, h.tcpNodes, h.nodes⟩

end Inv

/-! ## The descriptors -/

/-- Every connection's descriptor is open. -/
def Unclosed (s : TcpSystem mtu) : Prop := ∀ c ∈ s.threads, c.fd ∈ s.openFds

theorem Unclosed.setUp (h : s.Unclosed) (c : TcpSetup) (nodeEnv : Realloc Node)
    (tcpEnv : Realloc TcpPoolEntry) (created : Bool) :
    (s.setUp c nodeEnv tcpEnv created).Unclosed := by
  rw [TcpSystem.setUp]
  split
  · exact h
  · split
    · exact h
    · intro d hd
      cases created with
      | false => exact List.mem_cons_of_mem _ (h d hd)
      | true =>
        rcases List.mem_append.1 hd with hold | hnew
        · exact List.mem_cons_of_mem _ (h d hold)
        · rw [List.mem_singleton.1 hnew]
          exact List.mem_cons_self

/-- A connection that is replaced by one with its descriptor. -/
theorem Unclosed.set (h : s.Unclosed) (hfds : t.openFds = s.openFds) {j : ℕ} {c d : TcpThread}
    (hc : s.threads[j]? = some c) (hthreads : t.threads = s.threads.set j d) (hd : d.fd = c.fd) :
    t.Unclosed := by
  intro c' hc'
  rw [hthreads] at hc'
  rw [hfds]
  rcases List.mem_or_eq_of_mem_set hc' with hold | hnew
  · exact h c' hold
  · rw [hnew, hd]
    exact h c (List.mem_of_getElem? hc)

/-- No step closes one. -/
theorem Unclosed.step (h : s.Unclosed) (e : TcpSystemEvent mtu)
    (hs : tcpSystemStep s e = some t) : t.Unclosed := by
  cases e with
  | setUp c nodeEnv tcpEnv created =>
    obtain ⟨-, rfl⟩ := setUp_spec hs
    exact h.setUp c nodeEnv tcpEnv created
  | callback cb env j =>
    obtain ⟨c, w', hc, -, rfl⟩ := callback_spec hs
    exact h.set rfl hc rfl rfl
  | receive j turn closed =>
    obtain ⟨c, r, x, hc, -, -, -, -, ⟨-, rfl⟩ | ⟨-, rfl⟩⟩ := receive_spec hs
    · exact h
    · exact h.set rfl hc rfl rfl
  | clearRun i =>
    obtain ⟨x, -, rfl⟩ := clearRun_spec hs
    exact h
  | others recno sched =>
    obtain rfl := Option.some.inj hs
    exact h

/-- So a connection that has ended is not torn down. -/
theorem Unclosed.not_complete (h : s.Unclosed) {c : TcpThread} (hc : c ∈ s.threads)
    (hdead : c.live = false) : ¬ s.Complete :=
  fun hcomplete ↦ (hcomplete.tornDown c hc hdead).closed (h c hc)

end TcpSystem

/-! ## Whole runs -/

/-- **A connection never gives everything back.**  From zeroed pools, for every history of set-ups,
callbacks, receives and whatever the other threads do to the session table and the scheduler: as
long as every set-up goes well and no connection ends, the occupied entries of the two pools are as
many as the live connections; and no state in which a connection has ended is one where all that it
held has been given back, because its descriptor is still open. -/
theorem tcpSystem_complete (mtu : MtuProfile) (cap : ℕ → ProtocolBaseCb) (circleBuffer : Bool)
    (recno : RecnoIndex → SessionConnectionPool Node) (sched : List (SchedulerSlot RecnoIndex))
    (es : List (TcpSystemEvent mtu)) :
    (Guarded tcpSystemStep TcpSystem.StepOk (.start mtu cap circleBuffer recno sched) es →
      Always tcpSystemStep TcpSystem.Complete (.start mtu cap circleBuffer recno sched) es) ∧
    ∀ t, run tcpSystemStep (.start mtu cap circleBuffer recno sched) es = some t →
      (∃ c ∈ t.threads, c.live = false) → ¬ t.Complete := by
  refine ⟨fun hG ↦ ?_, fun t ht ⟨c, hc, hdead⟩ ↦ ?_⟩
  · exact always_of_guarded TcpSystem.Inv (fun _ h ↦ h.complete) (fun _ e _ h hok ↦ h.step e hok)
      es (TcpSystem.Inv.start mtu cap circleBuffer recno sched) hG
  · have hA := always_of_invariant (P := TcpSystem.Unclosed) TcpSystem.Unclosed (fun _ h ↦ h)
      (fun _ e _ h ↦ h.step e) es
      (fun c hc ↦ absurd hc List.not_mem_nil : (TcpSystem.start mtu cap circleBuffer recno
        sched).Unclosed)
    exact (hA.of_run ht).not_complete hc hdead

/-- A connection accepted on descriptor 7 and one made on descriptor 8, each of which receives
something. -/
def twoConnections : List (TcpSystemEvent .mtu1500) :=
  let nodeEnv : Realloc Node := ⟨fun _ ↦ .zero .mtu1500, false⟩
  let tcpEnv : Realloc TcpPoolEntry := ⟨fun _ ↦ .zero .mtu1500, false⟩
  let closed := (fun _ ↦ .zero .mtu1500, [])
  [.setUp (.accept (.zero .mtu1500) 7 ⟨0x409C, [10, 0, 0, 1]⟩) nodeEnv tcpEnv true,
    .receive 0 ⟨.bytes [0x61] (by decide) (by decide), 0⟩ closed,
    .setUp (.connect (.zero .mtu1500) 8 (some ⟨0x409D, [10, 0, 0, 2]⟩)) nodeEnv tcpEnv true,
    .receive 1 ⟨.bytes [0x62] (by decide) (by decide), 0⟩ closed,
    .receive 0 ⟨.bytes [0x63] (by decide) (by decide), 0⟩ closed]

theorem tcpSystem_complete_two :
    Always tcpSystemStep TcpSystem.Complete
      (.start .mtu1500 (fun _ ↦ .zero .mtu1500) true (fun _ ↦ .zero .mtu1500) [])
      twoConnections :=
  (tcpSystem_complete .mtu1500 _ _ _ _ _).1 (by decide +kernel)

-- all of these steps can be taken
example : (run tcpSystemStep (.start .mtu1500 (fun _ ↦ .zero .mtu1500) true
    (fun _ ↦ .zero .mtu1500) []) twoConnections).isSome = true := by
  decide +kernel

/-- A connection accepted on descriptor 7 whose peer closes at once: its thread returns, and the
descriptor stays open. -/
theorem tcpSystem_not_complete :
    ¬ Always tcpSystemStep TcpSystem.Complete
      (.start .mtu1500 (fun _ ↦ .zero .mtu1500) true (fun _ ↦ .zero .mtu1500) [])
      [.setUp (.accept (.zero .mtu1500) 7 ⟨0x409C, [10, 0, 0, 1]⟩) ⟨fun _ ↦ .zero .mtu1500, false⟩
          ⟨fun _ ↦ .zero .mtu1500, false⟩ true,
        .receive 0 ⟨.eof, 0⟩ (fun _ ↦ .zero .mtu1500, [])] := by
  intro hA
  have hlast : (run tcpSystemStep
      (.start .mtu1500 (fun _ ↦ .zero .mtu1500) true (fun _ ↦ .zero .mtu1500) [])
      [.setUp (.accept (.zero .mtu1500) 7 ⟨0x409C, [10, 0, 0, 1]⟩) ⟨fun _ ↦ .zero .mtu1500, false⟩
          ⟨fun _ ↦ .zero .mtu1500, false⟩ true,
        .receive 0 ⟨.eof, 0⟩ (fun _ ↦ .zero .mtu1500, [])]).map
      (fun t ↦ (t.threads.map fun c ↦ (c.fd, c.live), t.openFds)) = some ([(7, false)], [7]) := by
    rfl
  obtain ⟨t, ht, hend⟩ := Option.map_eq_some_iff.1 hlast
  rw [Prod.mk.injEq] at hend
  obtain ⟨c, hc, hcend⟩ : ∃ c ∈ t.threads, (c.fd, c.live) = ((7 : ℤ), false) :=
    List.mem_map.1 (by rw [hend.1]; exact List.mem_cons_self)
  rw [Prod.mk.injEq] at hcend
  have hclosed := ((hA.of_run ht).tornDown c hc hcend.2).closed
  rw [hend.2, hcend.1] at hclosed
  exact hclosed List.mem_cons_self

end DmmrOrbit
