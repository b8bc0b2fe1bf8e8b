import DmmrOrbit.Lib.Batching
import DmmrOrbit.Lib.Transition
import DmmrOrbit.Session.SessionPool

/-!
# What a session passes on

`process_session_node` collects the nodes that belong to a session and passes them on when they have
reached `VALUE_OUTPUT_BUFFER_SIZE` bytes.  Two loops decide on that: `get_session_size` adds up the
sizes as `uint16_t`s, and the count loop goes on while its own sum is not above the bound.  As long
as no node is larger than `VALUE_BUFFER_SIZE` they agree.  The pool never reaches the bound between
two calls, so the `uint16_t` does not wrap, and the count loop takes the whole pool.  The calls then
cut the matching nodes into batches as `Batching.cut` does (`batching_law`).

`sort_pool_by_arrival_inline` runs behind that, on what the batch has left in the pool, which is
nothing.  So the nodes of a batch are in the order in which they came to the session, and
`arrivalOrder_iff` says when that is the order of their arrival.
-/

set_option autoImplicit false

namespace DmmrOrbit

open Transition Batching

/-! ## The two loops -/

/-- The bytes of a node. -/
def Node.size (n : Node) : ℕ := n.valueSize.toNat

/-- Without a wrap `get_session_size` reaches its limit exactly when the nodes do. -/
theorem le_sessionSizeFrom_iff {max total : ℕ} {ns : List Node}
    (h : total + weight Node.size ns < 2 ^ 16) :
    max ≤ sessionSizeFrom max total ns ↔ max ≤ total + weight Node.size ns := by
  induction ns generalizing total with
  | nil => exact Iff.rfl
  | cons n ns ih =>
    rw [weight_cons, Node.size] at h ⊢
    have hmod : (total + n.valueSize.toNat) % 2 ^ 16 = total + n.valueSize.toNat :=
      Nat.mod_eq_of_lt (by omega)
    rw [sessionSizeFrom]
    simp only [hmod]
    split
    · next hle => exact iff_of_true hle (by omega)
    · rw [ih (by omega), Nat.add_assoc]

/-- The count loop goes past all nodes but the last, if they do not exceed the bound. -/
theorem flushCountFrom_concat {bound siz : ℕ} {ns : List Node} (n : Node) (hbound : bound < 2 ^ 32)
    (h : siz + weight Node.size ns ≤ bound) :
    flushCountFrom bound siz (ns ++ [n]) = ns.length + 1 := by
  induction ns generalizing siz with
  | nil =>
    rw [List.nil_append, flushCountFrom]
    split <;> rfl
  | cons m ns ih =>
    rw [weight_cons, Node.size] at h
    have hmod : (siz + m.valueSize.toNat) % 2 ^ 32 = siz + m.valueSize.toNat :=
      Nat.mod_eq_of_lt (by omega)
    rw [List.cons_append, flushCountFrom]
    simp only [hmod]
    rw [if_pos (by omega), ih (by omega), List.length_cons]

namespace MtuProfile

/-- The bound is some bytes, and one node more still fits a `uint16_t`. -/
theorem valueOutputBufferSize_bounds (mtu : MtuProfile) :
    0 < mtu.valueOutputBufferSize ∧
      mtu.valueOutputBufferSize + mtu.valueBufferSize < 2 ^ 16 := by
  cases mtu <;> decide

end MtuProfile

/-! ## One call -/

section

variable {mtu : MtuProfile} {nodePool : ℕ → Node} {conn : SessionConnectionPool Node}

/-- With a node that fits, the loops take all of the pool, or nothing. -/
theorem flushBatch_append (mtu : MtuProfile) (h : conn.Wf)
    (hroom : conn.poolCount < conn.poolSize) {n : Node}
    (hlive : weight Node.size conn.live < mtu.valueOutputBufferSize)
    (hn : n.size ≤ mtu.valueBufferSize) :
    (conn.append n).flushBatch mtu id =
      if mtu.valueOutputBufferSize ≤ weight Node.size (conn.live ++ [n]) then
        some (conn.live.length + 1)
      else none := by
  obtain ⟨-, hfit⟩ := mtu.valueOutputBufferSize_bounds
  have hweight : weight Node.size (conn.live ++ [n]) < 2 ^ 16 := by
    rw [weight_concat]
    omega
  have hsize : mtu.valueOutputBufferSize ≤
      getSessionSize (conn.live ++ [n]) mtu.valueOutputBufferSize ↔
        mtu.valueOutputBufferSize ≤ weight Node.size (conn.live ++ [n]) := by
    rw [getSessionSize, le_sessionSizeFrom_iff (by omega), Nat.zero_add]
  have hcount : flushCount mtu.valueOutputBufferSize (conn.live ++ [n]) = conn.live.length + 1 :=
    flushCountFrom_concat n (by omega) (by omega)
  have hpos : (conn.append n).poolSize > 0 := Nat.zero_lt_of_lt hroom
  rw [SessionConnectionPool.flushBatch, h.live_append hroom, List.map_id, hcount]
  simp only [ge_iff_le, hsize, hpos, and_true]

/-- A call on a pool below the bound, with a matching node that fits: the node is collected, or it
completes a batch, which leaves nothing. -/
theorem processSessionNode_spec (h : conn.Wf) (hroom : conn.poolCount < conn.poolSize) {n : Node}
    (hacc : conn.Accepts nodePool n)
    (hlive : weight Node.size conn.live < mtu.valueOutputBufferSize)
    (hn : n.size ≤ mtu.valueBufferSize) :
    let out := processSessionNode mtu id nodePool conn n
    if mtu.valueOutputBufferSize ≤ weight Node.size (conn.live ++ [n]) then
      out.2 = conn.live ++ [n] ∧ out.1.live = []
    else out.2 = [] ∧ out.1.live = conn.live ++ [n] := by
  intro out
  have happ := h.append hroom n
  have hbatch := flushBatch_append mtu h hroom hlive hn
  rcases processSessionNode_cases h hroom mtu id hacc with
    ⟨hflush, hout⟩ | ⟨count, hflush, -, hcount, hout⟩
  · rw [hflush] at hbatch
    split at hbatch
    · exact absurd hbatch (by simp)
    · next hlt =>
      simp only [out, hout, if_neg hlt]
      exact ⟨trivial, h.live_append hroom n⟩
  · rw [hflush] at hbatch
    split at hbatch
    · next hle =>
      obtain rfl := Option.some.inj hbatch
      have hall : (conn.live ++ [n]).length ≤ conn.live.length + 1 := by simp
      have hperm := happ.live_compact hcount id nodePool
      rw [h.live_append hroom, List.drop_of_length_le hall] at hperm
      simp only [out, hout, if_pos hle]
      exact ⟨List.take_of_length_le hall, hperm.eq_nil⟩
    · exact absurd hbatch (by simp)

end

/-! ## Runs of calls -/

/-- A session's pool over a run: what was passed to `snd_cb` so far, batch by batch, and the nodes
that `node_cmp` has matched with the session. -/
structure BatchRun where
  conn : SessionConnectionPool Node
  batches : List (List Node)
  matched : List Node

/-- The node at the cursor, and the node pool as it is when the node is compared. -/
structure CursorNode where
  nodePool : ℕ → Node
  node : Node

/-- One call of `process_session_node`, for which the pool has room. -/
def processStep (mtu : MtuProfile) (s : BatchRun) (e : CursorNode) : Option BatchRun :=
  if s.conn.poolCount < s.conn.poolSize then
    let out := processSessionNode mtu id e.nodePool s.conn e.node
    some {
      conn := out.1
      batches := if out.2.isEmpty then s.batches else s.batches ++ [out.2]
      matched := if s.conn.Accepts e.nodePool e.node then s.matched ++ [e.node] else s.matched }
  else none

/-- The node is one that the ring can hold. -/
def CursorNode.Fits (mtu : MtuProfile) (e : CursorNode) : Prop := e.node.size ≤ mtu.valueBufferSize

instance (mtu : MtuProfile) (e : CursorNode) : Decidable (e.Fits mtu) :=
  inferInstanceAs (Decidable (_ ≤ _))

/-- The calls with nodes that the ring can hold. -/
def fittingStep (mtu : MtuProfile) : BatchRun → CursorNode → Option BatchRun :=
  restrict (processStep mtu) fun _ e ↦ e.Fits mtu

/-- The batches of a list of nodes, and what is left over. -/
def cutNodes (mtu : MtuProfile) (ns : List Node) : List (List Node) × List Node :=
  cut Node.size mtu.valueOutputBufferSize ns

theorem processStep_cases {mtu : MtuProfile} {s t : BatchRun} {e : CursorNode}
    (hs : processStep mtu s e = some t) :
    let out := processSessionNode mtu id e.nodePool s.conn e.node
    s.conn.poolCount < s.conn.poolSize ∧ t = {
      conn := out.1
      batches := if out.2.isEmpty then s.batches else s.batches ++ [out.2]
      matched :=
        if s.conn.Accepts e.nodePool e.node then s.matched ++ [e.node] else s.matched } := by
  rw [processStep, Option.ite_none_right_eq_some] at hs
  exact ⟨hs.1, (Option.some.inj hs.2).symm⟩

/-! ## The batches -/

namespace BatchRun

/-- Between two calls: the pool is below the bound, and the batches and the pool are the matched
nodes, in order. -/
structure Law (mtu : MtuProfile) (s : BatchRun) : Prop where
  pending : weight Node.size s.conn.live < mtu.valueOutputBufferSize
  inOrder : s.batches.flatten ++ s.conn.live = s.matched

/-- A call with a matching node: no sum of `get_session_size` wraps; something is passed on if and
only if the pool and the node reach the bound; and then it is a batch of the right size, and nothing
is left in the pool. -/
structure MatchLaw (mtu : MtuProfile) (s : BatchRun) (e : CursorNode) : Prop where
  noWrap : ∀ k, weight Node.size ((s.conn.live ++ [e.node]).take k) < 2 ^ 16
  sent_iff : (processSessionNode mtu id e.nodePool s.conn e.node).2 ≠ [] ↔
    mtu.valueOutputBufferSize ≤ weight Node.size (s.conn.live ++ [e.node])
  batch : (processSessionNode mtu id e.nodePool s.conn e.node).2 ≠ [] →
    let out := processSessionNode mtu id e.nodePool s.conn e.node
    mtu.valueOutputBufferSize ≤ weight Node.size out.2 ∧
      weight Node.size out.2 < mtu.valueOutputBufferSize + mtu.valueBufferSize ∧ out.1.live = []

/-- What holds of one call, in the state before it. -/
def CallLaw (mtu : MtuProfile) (s : BatchRun) (e : CursorNode) : Prop :=
  if s.conn.Accepts e.nodePool e.node then s.MatchLaw mtu e
  else processSessionNode mtu id e.nodePool s.conn e.node = (s.conn, [])

/-- What is kept: the run so far is the cut of the matched nodes. -/
structure Inv (mtu : MtuProfile) (s : BatchRun) : Prop where
  wf : s.conn.Wf
  cut : (s.batches, s.conn.live) = cutNodes mtu s.matched

variable {mtu : MtuProfile} {s t : BatchRun} {e : CursorNode}

theorem Inv.pending (h : s.Inv mtu) :
    weight Node.size s.conn.live < mtu.valueOutputBufferSize := by
  have hlive : s.conn.live = (cutNodes mtu s.matched).2 := congrArg Prod.snd h.cut
  rw [hlive]
  exact weight_cut_snd_lt mtu.valueOutputBufferSize_bounds.1 s.matched

theorem Inv.law (h : s.Inv mtu) : s.Law mtu where
  pending := h.pending
  inOrder := by
    have hflat := flatten_cut Node.size mtu.valueOutputBufferSize s.matched
    rwa [← cutNodes, ← h.cut] at hflat

theorem Inv.start {conn : SessionConnectionPool Node} (h : conn.Wf) (hempty : conn.poolCount = 0) :
    (⟨conn, [], []⟩ : BatchRun).Inv mtu :=
  ⟨h, by rw [SessionConnectionPool.live, hempty]; rfl⟩

/-- The next state of the batches and the pool is a `push`. -/
theorem Inv.step (h : s.Inv mtu) (hs : fittingStep mtu s e = some t) : t.Inv mtu := by
  obtain ⟨hfits, hs⟩ := restrict_eq_some.1 hs
  obtain ⟨hroom, rfl⟩ := processStep_cases hs
  refine ⟨h.wf.processSessionNode hroom mtu id e.nodePool e.node, ?_⟩
  by_cases hacc : s.conn.Accepts e.nodePool e.node
  · have hspec := processSessionNode_spec h.wf hroom hacc h.pending hfits
    dsimp only
    rw [if_pos hacc, cutNodes, cut_concat, ← cutNodes, ← h.cut]
    split at hspec
    · next hle =>
      rw [push_of_le hle, hspec.1, hspec.2]
      simp
    · next hlt =>
      rw [push_of_lt (Nat.not_le.1 hlt), hspec.1, hspec.2]
      rfl
  · dsimp only
    rw [if_neg hacc, processSessionNode_of_not_accepts hacc]
    exact h.cut

theorem Inv.matchLaw (h : s.Inv mtu) (hroom : s.conn.poolCount < s.conn.poolSize)
    (hfits : e.Fits mtu) (hacc : s.conn.Accepts e.nodePool e.node) : s.MatchLaw mtu e := by
  obtain ⟨hpos, hfit⟩ := mtu.valueOutputBufferSize_bounds
  have hpending := h.pending
  have hspec := processSessionNode_spec h.wf hroom hacc hpending hfits
  have htotal : weight Node.size (s.conn.live ++ [e.node]) <
      mtu.valueOutputBufferSize + mtu.valueBufferSize := by
    have hsize : e.node.size ≤ mtu.valueBufferSize := hfits
    rw [weight_concat]
    omega
  refine ⟨fun k ↦ ?_, ?_, ?_⟩
  · have hle := weight_take_le (w := Node.size) (s.conn.live ++ [e.node]) k
    omega
  · split at hspec
    · next hle => exact iff_of_true (by rw [hspec.1]; simp) hle
    · next hlt => exact iff_of_false (not_not.2 hspec.1) hlt
  · split at hspec
    · next hle =>
      intro _ out
      rw [hspec.1]
      exact ⟨hle, htotal, hspec.2⟩
    · exact fun hsent ↦ absurd hspec.1 hsent

theorem Inv.callLaw (h : s.Inv mtu) (hs : fittingStep mtu s e = some t) : s.CallLaw mtu e := by
  obtain ⟨hfits, hs⟩ := restrict_eq_some.1 hs
  obtain ⟨hroom, -⟩ := processStep_cases hs
  rw [CallLaw]
  split
  · next hacc => exact h.matchLaw hroom hfits hacc
  · next hacc => exact processSessionNode_of_not_accepts hacc

end BatchRun

/-- **The batching law.**  For both profiles, from every well-formed empty pool and over every
sequence of nodes that the ring can hold, as long as the pool has room: in every state reached the
pool is below `VALUE_OUTPUT_BUFFER_SIZE`, and the batches passed to `snd_cb` and then the pool are
exactly the matched nodes, in order; and in every call `get_session_size` does not wrap, a batch is
sent exactly when the pool reaches the bound, exceeds it by less than one node and leaves the pool
empty. -/
theorem batching_law (mtu : MtuProfile) {conn : SessionConnectionPool Node} (h : conn.Wf)
    (hempty : conn.poolCount = 0) (es : List CursorNode) :
    Always (fittingStep mtu) (BatchRun.Law mtu) ⟨conn, [], []⟩ es ∧
      Guarded (fittingStep mtu) (BatchRun.CallLaw mtu) ⟨conn, [], []⟩ es :=
  ⟨always_of_invariant (BatchRun.Inv mtu) (fun _ h ↦ h.law) (fun _ _ _ h hs ↦ h.step hs) es
      (.start h hempty),
    guarded_of_invariant (BatchRun.Inv mtu) (fun _ _ _ h hs ↦ h.callLaw hs)
      (fun _ _ _ h hs ↦ h.step hs) es (.start h hempty)⟩

/-! ## Six full nodes -/

/-- A full node of a given arrival. -/
def nodeOfArrival (arrival : UInt64) : Node :=
  { Node.zero .mtu1500 with arrival := arrival, valueSize := 1420 }

/-- A TCP session with an empty pool of eight cells. -/
def emptySession : SessionConnectionPool Node :=
  { (SessionConnectionPool.zero .mtu1500 : SessionConnectionPool Node) with
    run := true
    poolSize := 8
    pool := List.replicate 8 (.zero .mtu1500)
    session := { ProtocolBaseCb.zero .mtu1500 with
      proto := .tcp
      node := some 0
      linked := some (.tcp 0) } }

theorem emptySession_wf : emptySession.Wf :=
  ⟨List.length_replicate, by show 8 < 2 ^ 32; decide, Nat.zero_le _⟩

/-- Full nodes of its peer, with the given arrivals. -/
def fullNodes (arrivals : List UInt64) : List CursorNode :=
  arrivals.map fun arrival ↦ ⟨fun _ ↦ nodeOfArrival 0, nodeOfArrival arrival⟩

theorem batching_law_six :
    Always (fittingStep .mtu1500) (BatchRun.Law .mtu1500) ⟨emptySession, [], []⟩
        (fullNodes [1, 2, 3, 4, 5, 6]) ∧
      Guarded (fittingStep .mtu1500) (BatchRun.CallLaw .mtu1500) ⟨emptySession, [], []⟩
        (fullNodes [1, 2, 3, 4, 5, 6]) :=
  batching_law .mtu1500 emptySession_wf rfl _

/-! ## The order of arrival -/

/-- The nodes are in the order of their arrival. -/
def InArrivalOrder (ns : List Node) : Prop := ns.Pairwise fun x y ↦ x.arrival ≤ y.arrival

namespace BatchRun

/-- Every batch so far was in the order of arrival. -/
def Ordered (s : BatchRun) : Prop := ∀ batch ∈ s.batches, InArrivalOrder batch

/-- The calls that go well: where the two loops take a first part of the pool and the new node, it
is in the order of arrival already. -/
def StepOk (mtu : MtuProfile) (s : BatchRun) (e : CursorNode) : Prop :=
  s.conn.Accepts e.nodePool e.node → ∀ count,
    (s.conn.append e.node).flushBatch mtu id = some count →
      InArrivalOrder ((s.conn.live ++ [e.node]).take count)

variable {mtu : MtuProfile} {s t : BatchRun} {e : CursorNode}

theorem ordered_start (conn : SessionConnectionPool Node) :
    (⟨conn, [], []⟩ : BatchRun).Ordered :=
  List.forall_mem_nil _

/-- A call passes on nothing, or one batch that is as it was collected. -/
theorem batches_cases (h : s.conn.Wf) (hs : processStep mtu s e = some t) :
    (t.batches = s.batches ∧ s.StepOk mtu e) ∨
      ∃ batch, t.batches = s.batches ++ [batch] ∧ (InArrivalOrder batch ↔ s.StepOk mtu e) := by
  obtain ⟨hroom, rfl⟩ := processStep_cases hs
  dsimp only
  by_cases hacc : s.conn.Accepts e.nodePool e.node
  · rcases processSessionNode_cases h hroom mtu id hacc with
      ⟨hflush, hout⟩ | ⟨count, hflush, hpos, -, hout⟩
    · refine .inl ⟨by rw [hout]; rfl, fun _ count hcount ↦ ?_⟩
      rw [hflush] at hcount
      exact absurd hcount (by simp)
    · have hne : ((s.conn.live ++ [e.node]).take count).isEmpty = false := by
        rw [List.isEmpty_eq_false_iff, ne_eq, List.take_eq_nil_iff]
        simp [hpos.ne']
      refine .inr ⟨_, by rw [hout]; dsimp only; rw [hne]; rfl, ?_⟩
      refine ⟨fun hbatch _ count' hcount ↦ ?_, fun hok ↦ hok hacc count hflush⟩
      rw [hflush] at hcount
      exact Option.some.inj hcount ▸ hbatch
  · exact .inl ⟨by rw [processSessionNode_of_not_accepts hacc]; rfl, fun h ↦ absurd h hacc⟩

theorem wf_step (h : s.conn.Wf) (hs : processStep mtu s e = some t) : t.conn.Wf := by
  obtain ⟨hroom, rfl⟩ := processStep_cases hs
  exact h.processSessionNode hroom mtu id e.nodePool e.node

theorem ordered_step (h : s.conn.Wf) (hord : s.Ordered) (hok : s.StepOk mtu e)
    (hs : processStep mtu s e = some t) : t.Ordered := by
  rcases batches_cases h hs with ⟨heq, -⟩ | ⟨batch, heq, hiff⟩
  · rwa [Ordered, heq]
  · rw [Ordered, heq]
    intro b hb
    rcases List.mem_append.1 hb with hmem | hlast
    · exact hord b hmem
    · obtain rfl := List.mem_singleton.1 hlast
      exact hiff.2 hok

theorem not_ordered_step (h : s.conn.Wf) (hbad : ¬ s.StepOk mtu e)
    (hs : processStep mtu s e = some t) : ¬ t.Ordered := by
  rcases batches_cases h hs with ⟨-, hok⟩ | ⟨batch, heq, hiff⟩
  · exact absurd hok hbad
  · intro hord
    rw [Ordered, heq] at hord
    exact hbad (hiff.1 (hord batch (List.mem_append_right _ (.head _))))

end BatchRun

/-- **The batches are in the order of arrival exactly when the nodes came in that order.**  From
every well-formed pool, over every sequence of nodes:

* every batch is in the order of arrival if and only if, at each call that brings one, the nodes it
  takes of the pool and the new node are in that order already;
* from an empty pool, and with nodes that the ring can hold, the batches so far are in that order if
  and only if each batch of the matched nodes is, as they came in. -/
theorem arrivalOrder_iff (mtu : MtuProfile) {conn : SessionConnectionPool Node} (h : conn.Wf)
    (es : List CursorNode) :
    (Always (processStep mtu) BatchRun.Ordered ⟨conn, [], []⟩ es ↔
      Guarded (processStep mtu) (BatchRun.StepOk mtu) ⟨conn, [], []⟩ es) ∧
    (conn.poolCount = 0 → Always (fittingStep mtu)
      (fun s ↦ s.Ordered ↔ ∀ batch ∈ (cutNodes mtu s.matched).1, InArrivalOrder batch)
      ⟨conn, [], []⟩ es) := by
  constructor
  · exact always_iff_guarded (fun s ↦ s.conn.Wf ∧ s.Ordered) (fun _ h ↦ h.2)
      (fun _ _ _ h hok hs ↦ ⟨BatchRun.wf_step h.1 hs, BatchRun.ordered_step h.1 h.2 hok hs⟩)
      (fun _ _ _ h hbad hs ↦ BatchRun.not_ordered_step h.1 hbad hs) es
      ⟨h, BatchRun.ordered_start conn⟩
  · intro hempty
    refine always_of_invariant (BatchRun.Inv mtu) (fun s h ↦ ?_) (fun _ _ _ h hs ↦ h.step hs) es
      (.start h hempty)
    rw [← h.cut]
    exact Iff.rfl

theorem arrivalOrder_iff_six :
    Always (fittingStep .mtu1500)
      (fun s ↦ s.Ordered ↔ ∀ batch ∈ (cutNodes .mtu1500 s.matched).1, InArrivalOrder batch)
      ⟨emptySession, [], []⟩ (fullNodes [1, 2, 3, 4, 5, 6]) :=
  (arrivalOrder_iff .mtu1500 emptySession_wf _).2 rfl

/-- Six of them, of which the last arrived first, are passed on as they came. -/
theorem arrivalOrder_fails :
    ¬ Always (processStep .mtu1500) BatchRun.Ordered ⟨emptySession, [], []⟩
      (fullNodes [2, 3, 4, 5, 6, 1]) := by
  intro hA
  have hlast : (run (processStep .mtu1500) ⟨emptySession, [], []⟩
      (fullNodes [2, 3, 4, 5, 6, 1])).map (fun t ↦ t.batches.map (List.map Node.arrival)) =
        some [[2, 3, 4, 5, 6, 1]] := by decide +kernel
  obtain ⟨t, ht, hsent⟩ := Option.map_eq_some_iff.1 hlast
  obtain ⟨batch, hbatch, harrivals⟩ : ∃ batch ∈ t.batches,
      batch.map Node.arrival = [2, 3, 4, 5, 6, 1] := by
    rw [← List.mem_map, hsent]
    exact .head _
  have hord : (batch.map Node.arrival).Pairwise (· ≤ ·) :=
    List.pairwise_map.2 (hA.of_run ht batch hbatch)
  rw [harrivals] at hord
  exact absurd hord (by decide)

end DmmrOrbit
