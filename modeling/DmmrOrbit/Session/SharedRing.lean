import DmmrOrbit.Lib.Routing
import DmmrOrbit.Session.Capacity
import DmmrOrbit.Session.NodeOrder
import DmmrOrbit.Session.SessionWorker

/-!
# Several sessions on one ring

Every session has a worker, and all workers read the ring that `fifo_worker` writes, each with a
cursor of its own.  A worker takes the nodes that `node_cmp` matches with its session's own node, so
the sessions divide what is written among them.

Nothing keeps a worker away from the slot that `fifo_worker` is copying to, and `node_cmp` and the
copy into the pool each read the slot for themselves.  So the comparison and the copy are two steps
of a worker here, and what is in the slot at the cursor may change at any time before `fifo_worker`
moves the cursor on (`SharedEvent.tear`).

`sessions_share_ring` says what that comes to over the interleavings of the writer and any number of
workers in which the workers keep pace, each behind the cursor when it begins with a node and less
than a lap behind it.  No node ever gets to a session that it does not belong to, or to two of them,
and every session passes on the nodes that were written for it since it started, in order and cut
into batches as `process_session_node` does it.

A worker starts at the writer's cursor, whenever it likes.  That is an assumption: `insert_session`
means to do this, but the call that asks for the cursor does not return (`insertSession_spec`), so
that the program never gets to start a worker.
-/

set_option autoImplicit false

namespace DmmrOrbit

open Transition Batching Routing

variable {N : ℕ} {ι : Type}

/-- The node is one that the receivers can make: its arrays have their sizes, and its value fits. -/
structure Node.Proper (mtu : MtuProfile) (n : Node) : Prop where
  sized : n.Sized
  fits : n.size ≤ mtu.valueBufferSize

instance (n : Node) : Decidable n.Sized :=
  decidable_of_iff (n.ipv4.length = 16 ∧ n.ipv6.length = 28)
    ⟨fun h ↦ ⟨h.1, h.2⟩, fun h ↦ ⟨h.length_ipv4, h.length_ipv6⟩⟩

instance (mtu : MtuProfile) (n : Node) : Decidable (n.Proper mtu) :=
  decidable_of_iff (n.Sized ∧ n.size ≤ mtu.valueBufferSize)
    ⟨fun h ↦ ⟨h.1, h.2⟩, fun h ↦ ⟨h.sized, h.fits⟩⟩

/-! ## The workers and the writer -/

/-- What stays as it is: where the ring lies, the node pool with the sessions' own nodes, and the
entry of each session before its pool is allocated. -/
structure SharedSetup (ι : Type) where
  mtu : MtuProfile
  layout : RingLayout
  nodePool : ℕ → Node
  entry : ι → SessionConnectionPool Node

/-- The node that a session compares with. -/
def SharedSetup.peer (c : SharedSetup ι) (i : ι) : Option Node :=
  (getSessionNode (c.entry i).session).map c.nodePool

def SharedSetup.Belongs (c : SharedSetup ι) (i : ι) (n : Node) : Prop :=
  nodeCmp (some n) (c.peer i) = 0

instance (c : SharedSetup ι) (i : ι) : DecidablePred (c.Belongs i) :=
  fun _ ↦ inferInstanceAs (Decidable (_ = _))

/-- No two sessions have nodes that `node_cmp` finds equal. -/
structure SharedSetup.Distinct (c : SharedSetup ι) : Prop where
  sized : ∀ k, (c.nodePool k).Sized
  inj : ∀ i j, nodeCmp (c.peer i) (c.peer j) = 0 → i = j

/-- Where a worker is in its loop: before the growth test and the comparison, between the comparison
and the copy, or waiting to be behind the cursor. -/
inductive ReaderPc
  | comparing
  | copying (accepted : Bool)
  | waiting
  deriving DecidableEq, Repr

/-- A session's worker: its entry and what it has passed on, its cursor, and where it is in its
loop.  The last three fields are the history: how many nodes had been written when it started, how
often it has moved on, and what it has processed. -/
structure Reader (N : ℕ) where
  batch : BatchRun
  cursor : Elm N
  pc : ReaderPc
  start : ℕ
  moves : ℕ
  processed : List Node

/-- The ring with its workers, and the nodes that were written so far. -/
structure SharedRing (N : ℕ) (ι : Type) where
  ring : Fin N → Node
  cursor : Elm N
  readers : ι → Option (Reader N)
  written : List Node

inductive SharedEvent (ι : Type)
  /-- `fifo_worker` is copying to the slot at the cursor, which holds `n` meanwhile. -/
  | tear (n : Node)
  /-- It has copied the node, and moves the cursor on. -/
  | write (n : Node)
  | start (i : ι)
  | compare (i : ι) (fresh : ℕ → Node)
  | copy (i : ι)
  | advance (i : ι)

/-- `process_session_node` after its comparison. -/
def collectNode (mtu : MtuProfile) (nodePool : ℕ → Node) (conn : SessionConnectionPool Node)
    (n : Node) : SessionConnectionPool Node × List Node :=
  let conn := conn.append n
  match conn.flushBatch mtu id with
  | none => (conn, [])
  | some count => (conn.afterFlush id nodePool count, conn.pool.take count)

/-- The node is collected, and what is passed on with it is a batch. -/
def BatchRun.collect (mtu : MtuProfile) (nodePool : ℕ → Node) (b : BatchRun) (n : Node) :
    BatchRun :=
  let out := collectNode mtu nodePool b.conn n
  { conn := out.1
    batches := if out.2.isEmpty then b.batches else b.batches ++ [out.2]
    matched := b.matched ++ [n] }

namespace Reader

/-- The nodes that the session has passed on or collected. -/
def taken (r : Reader N) : List Node := r.batch.batches.flatten ++ r.batch.conn.live

/-- The pool is grown when it is full, so that it has room, and the node at the cursor is compared
with the session's own. -/
def compare (c : SharedSetup ι) (n : Node) (fresh : ℕ → Node) (r : Reader N) : Option (Reader N) :=
  let conn := r.batch.conn.grown fresh
  if conn.poolCount < conn.poolSize then
    some { r with
      batch := { r.batch with conn := conn }, pc := .copying (conn.Accepts c.nodePool n) }
  else none

/-- The node at the cursor is copied, if the comparison has found it equal. -/
def copy (c : SharedSetup ι) (n : Node) (accepted : Bool) (r : Reader N) : Reader N :=
  { r with
    batch := if accepted then r.batch.collect c.mtu c.nodePool n else r.batch
    pc := .waiting
    processed := r.processed ++ [n] }

def advance [NeZero N] (r : Reader N) : Reader N :=
  { r with cursor := iterate r.cursor, moves := r.moves + 1, pc := .comparing }

end Reader

namespace SharedRing

/-- A ring that nothing was written to, whatever is in it. -/
def init [NeZero N] (ring : Fin N → Node) : SharedRing N ι := ⟨ring, circleqFirst, fun _ ↦ none, []⟩

/-- A worker that starts now. -/
def newReader (c : SharedSetup ι) (s : SharedRing N ι) (i : ι) : Reader N where
  batch := ⟨(c.entry i).inserted c.mtu true, [], []⟩
  cursor := s.cursor
  pc := .comparing
  start := s.written.length
  moves := 0
  processed := []

def setReader [DecidableEq ι] (s : SharedRing N ι) (i : ι) (r : Reader N) : SharedRing N ι :=
  { s with readers := Function.update s.readers i (some r) }

/-- What a session has passed on or collected, nothing before it has started. -/
def taken (s : SharedRing N ι) (i : ι) : List Node := ((s.readers i).map Reader.taken).getD []

/-- What its worker has processed. -/
def seen (s : SharedRing N ι) (i : ι) : List Node := ((s.readers i).map Reader.processed).getD []

end SharedRing

def sharedStep [NeZero N] [DecidableEq ι] (c : SharedSetup ι) (s : SharedRing N ι) :
    SharedEvent ι → Option (SharedRing N ι)
  | .tear n =>
    match s.cursor with
    | .entry k => some { s with ring := Function.update s.ring k n }
    | .head => none
  | .write n =>
    match s.cursor with
    | .entry k =>
      some { s with
        ring := Function.update s.ring k n
        cursor := fowardCurrentNode s.cursor
        written := s.written ++ [n] }
    | .head => none
  | .start i =>
    match s.readers i with
    | none => some (s.setReader i (s.newReader c i))
    | some _ => none
  | .compare i fresh =>
    match s.readers i with
    | none => none
    | some r =>
      match r.cursor, r.pc with
      | .entry k, .comparing => (r.compare c (s.ring k) fresh).map (s.setReader i)
      | _, _ => none
  | .copy i =>
    match s.readers i with
    | none => none
    | some r =>
      match r.cursor, r.pc with
      | .entry k, .copying accepted => some (s.setReader i (r.copy c (s.ring k) accepted))
      | _, _ => none
  | .advance i =>
    match s.readers i with
    | none => none
    | some r =>
      if r.pc = .waiting ∧ isBehindCursor c.layout r.cursor s.cursor = true then
        some (s.setReader i r.advance)
      else none

/-- The writer writes nodes that the receivers can make, and the workers keep pace: the writer does
not get a lap ahead of one, and a worker only begins with a slot that is behind the cursor. -/
def SharedSetup.StepInTime (c : SharedSetup ι) (s : SharedRing N ι) : SharedEvent ι → Prop
  | .write n => n.Proper c.mtu ∧
      ∀ i, ∀ r ∈ s.readers i, s.written.length + 1 - (r.start + r.moves) < N - 1
  | .compare i _ => ∀ r ∈ s.readers i, isBehindCursor c.layout r.cursor s.cursor = true
  | .tear _ | .start _ | .copy _ | .advance _ => True

instance [Fintype ι] (c : SharedSetup ι) (s : SharedRing N ι) (e : SharedEvent ι) :
    Decidable (c.StepInTime s e) := by
  cases e <;> unfold SharedSetup.StepInTime <;> infer_instance

/-! ## What a step does -/

section

variable [NeZero N] [DecidableEq ι] {c : SharedSetup ι} {s t : SharedRing N ι} {i : ι}

theorem sharedStep_tear {n : Node} (hs : sharedStep c s (.tear n) = some t) :
    ∃ k, s.cursor = .entry k ∧ t = { s with ring := Function.update s.ring k n } := by
  rw [sharedStep] at hs
  split at hs
  · next k hk => exact ⟨k, hk, (Option.some.inj hs).symm⟩
  · exact absurd hs (by simp)

theorem sharedStep_write {n : Node} (hs : sharedStep c s (.write n) = some t) :
    ∃ k, s.cursor = .entry k ∧ t = { s with
      ring := Function.update s.ring k n
      cursor := fowardCurrentNode s.cursor
      written := s.written ++ [n] } := by
  rw [sharedStep] at hs
  split at hs
  · next k hk => exact ⟨k, hk, (Option.some.inj hs).symm⟩
  · exact absurd hs (by simp)

theorem sharedStep_start (hs : sharedStep c s (.start i) = some t) :
    t = s.setReader i (s.newReader c i) := by
  rw [sharedStep] at hs
  split at hs
  · exact (Option.some.inj hs).symm
  · exact absurd hs (by simp)

theorem sharedStep_compare {fresh : ℕ → Node} (hs : sharedStep c s (.compare i fresh) = some t) :
    ∃ r k r', s.readers i = some r ∧ r.cursor = .entry k ∧ r.pc = .comparing ∧
      r.compare c (s.ring k) fresh = some r' ∧ t = s.setReader i r' := by
  rw [sharedStep] at hs
  split at hs
  · exact absurd hs (by simp)
  · next r hr =>
    split at hs
    · next k hk hp =>
      obtain ⟨r', hr', rfl⟩ := Option.map_eq_some_iff.1 hs
      exact ⟨r, k, r', hr, hk, hp, hr', rfl⟩
    · exact absurd hs (by simp)

theorem sharedStep_copy (hs : sharedStep c s (.copy i) = some t) :
    ∃ r k accepted, s.readers i = some r ∧ r.cursor = .entry k ∧ r.pc = .copying accepted ∧
      t = s.setReader i (r.copy c (s.ring k) accepted) := by
  rw [sharedStep] at hs
  split at hs
  · exact absurd hs (by simp)
  · next r hr =>
    split at hs
    · next k accepted hk hp => exact ⟨r, k, accepted, hr, hk, hp, (Option.some.inj hs).symm⟩
    · exact absurd hs (by simp)

theorem sharedStep_advance (hs : sharedStep c s (.advance i) = some t) :
    ∃ r, s.readers i = some r ∧ r.pc = .waiting ∧ t = s.setReader i r.advance := by
  rw [sharedStep] at hs
  split at hs
  · exact absurd hs (by simp)
  · next r hr =>
    obtain ⟨hp, hs⟩ := Option.ite_none_right_eq_some.1 hs
    exact ⟨r, hr, hp.1, (Option.some.inj hs).symm⟩

omit [NeZero N] in
theorem SharedRing.readers_setReader_self (s : SharedRing N ι) (i : ι) (r : Reader N) :
    (s.setReader i r).readers i = some r :=
  Function.update_self _ _ _

omit [NeZero N] in
theorem SharedRing.readers_setReader_of_ne (s : SharedRing N ι) {i j : ι} (h : j ≠ i)
    (r : Reader N) : (s.setReader i r).readers j = s.readers j :=
  Function.update_of_ne h _ _

omit [NeZero N] in
/-- What holds of the workers holds of them after one has changed, if it holds of that one. -/
theorem SharedRing.forall_setReader {P : ι → Reader N → Prop}
    (h : ∀ j, ∀ r ∈ s.readers j, P j r) {r : Reader N} (hr : P i r) :
    ∀ j, ∀ q ∈ (s.setReader i r).readers j, P j q := by
  intro j q hq
  by_cases hj : j = i
  · obtain rfl := hj
    rw [readers_setReader_self] at hq
    exact Option.some.inj hq ▸ hr
  · rw [readers_setReader_of_ne s hj] at hq
    exact h j q hq

end

/-! ## The entry of a worker -/

/-- A pool that has room after the growth test has what it had before. -/
theorem SessionConnectionPool.Wf.grown {conn : SessionConnectionPool Node} (h : conn.Wf)
    {fresh : ℕ → Node} (hroom : (conn.grown fresh).poolCount < (conn.grown fresh).poolSize) :
    (conn.grown fresh).Wf ∧ (conn.grown fresh).live = conn.live := by
  have hlt := h.lt
  have hcount := h.count
  rw [SessionConnectionPool.grown] at hroom ⊢
  split at hroom
  · next hmust =>
    rw [if_pos hmust]
    have hsize : conn.poolCount < conn.poolSize * 2 % 2 ^ 32 := hroom
    have hfull : (conn.poolCount + 1) % 2 ^ 32 > conn.poolSize := hmust
    obtain ⟨hlive, hwf⟩ := h.live_grow (by omega) fresh
    exact ⟨hwf, hlive⟩
  · next hmust => rw [if_neg hmust]; exact ⟨h, rfl⟩

theorem getSessionNode_updateSessionCounter (nodePool : ℕ → Node) (u : ProtocolBaseCb) :
    getSessionNode (updateSessionCounter nodePool u) = getSessionNode u := by
  rw [updateSessionCounter]
  split <;> rfl

/-- A call of `process_session_node` leaves the session its node. -/
theorem getSessionNode_processSessionNode {α : Type} (mtu : MtuProfile) (toNode : α → Node)
    (nodePool : ℕ → Node) (conn : SessionConnectionPool α) (a : α) :
    getSessionNode (processSessionNode mtu toNode nodePool conn a).1.session =
      getSessionNode conn.session := by
  rw [processSessionNode]
  split
  · dsimp only
    split
    · rfl
    · rw [SessionConnectionPool.afterFlush]
      split
      · exact getSessionNode_updateSessionCounter nodePool conn.session
      · rfl
  · rfl

theorem processSessionNode_of_accepts {mtu : MtuProfile} {nodePool : ℕ → Node}
    {conn : SessionConnectionPool Node} {n : Node} (hacc : conn.Accepts nodePool n) :
    processSessionNode mtu id nodePool conn n = collectNode mtu nodePool conn n :=
  if_pos hacc

/-- A copy after a comparison that has found the nodes equal is a call of `process_session_node`. -/
theorem BatchRun.collect_eq {mtu : MtuProfile} {nodePool : ℕ → Node} {b : BatchRun} {n : Node}
    (hroom : b.conn.poolCount < b.conn.poolSize) (hacc : b.conn.Accepts nodePool n) :
    processStep mtu b ⟨nodePool, n⟩ = some (b.collect mtu nodePool n) := by
  rw [processStep, if_pos hroom]
  dsimp only
  rw [processSessionNode_of_accepts hacc, if_pos hacc, collect]

/-- What is kept of a worker: its batches and its pool are the nodes that belong to it of those it
has processed. -/
structure Reader.Inv (c : SharedSetup ι) (i : ι) (r : Reader N) : Prop where
  batch : r.batch.Inv c.mtu
  node : getSessionNode r.batch.conn.session = getSessionNode (c.entry i).session
  matched : r.batch.matched = r.processed.filter (c.Belongs i)
  room : ∀ accepted, r.pc = .copying accepted → r.batch.conn.poolCount < r.batch.conn.poolSize

section

variable {c : SharedSetup ι} {s t : SharedRing N ι} {i : ι}

theorem Reader.Inv.taken_eq {r : Reader N} (h : r.Inv c i) :
    r.taken = r.processed.filter (c.Belongs i) :=
  h.batch.law.inOrder.trans h.matched

theorem SharedRing.inv_newReader (c : SharedSetup ι) (s : SharedRing N ι) (i : ι) :
    (s.newReader c i).Inv c i where
  batch := .start (CapacityRun.Inv.inserted (c.entry i) rfl rfl).wf rfl
  node := rfl
  matched := rfl
  room _ h := nomatch h

/-- The comparison is the one that decides what belongs to the session. -/
theorem Reader.Inv.accepts_iff {r : Reader N} (h : r.Inv c i) (n : Node) :
    r.batch.conn.Accepts c.nodePool n ↔ c.Belongs i n := by
  rw [SessionConnectionPool.Accepts, h.node]
  exact Iff.rfl

theorem Reader.Inv.compare {r r' : Reader N} (h : r.Inv c i) {n : Node} {fresh : ℕ → Node}
    (hs : r.compare c n fresh = some r') :
    r'.Inv c i ∧ ∃ accepted, r' = { r with
      batch := { r.batch with conn := r.batch.conn.grown fresh }, pc := .copying accepted } ∧
      (accepted = true ↔ c.Belongs i n) := by
  obtain ⟨hroom, hr'⟩ := Option.ite_none_right_eq_some.1 hs
  obtain rfl := Option.some.inj hr'
  obtain ⟨hwf, hlive⟩ := h.batch.wf.grown hroom
  have hgrown : getSessionNode (r.batch.conn.grown fresh).session =
      getSessionNode r.batch.conn.session := by
    rw [SessionConnectionPool.grown]
    split <;> rfl
  have hinv : Reader.Inv c i { r with
      batch := { r.batch with conn := r.batch.conn.grown fresh }
      pc := .copying ((r.batch.conn.grown fresh).Accepts c.nodePool n) } :=
    ⟨⟨hwf, by rw [hlive]; exact h.batch.cut⟩, hgrown.trans h.node, h.matched, fun _ _ ↦ hroom⟩
  exact ⟨hinv, _, rfl, by rw [decide_eq_true_iff]; exact hinv.accepts_iff n⟩

/-- A copy of the node that was compared. -/
theorem Reader.Inv.copy {r : Reader N} (h : r.Inv c i) {accepted : Bool}
    (hp : r.pc = .copying accepted) {n : Node} (hn : n.Proper c.mtu)
    (hacc : accepted = true ↔ c.Belongs i n) : (r.copy c n accepted).Inv c i := by
  have hmatched := h.matched
  cases accepted with
  | true =>
    have hbelongs := hacc.1 rfl
    have haccepts := (h.accepts_iff n).2 hbelongs
    have hfits : (⟨c.nodePool, n⟩ : CursorNode).Fits c.mtu := hn.fits
    have hstep : processStep c.mtu r.batch ⟨c.nodePool, n⟩ =
        some (r.batch.collect c.mtu c.nodePool n) := BatchRun.collect_eq (h.room _ hp) haccepts
    refine ⟨h.batch.step (restrict_eq_some.2 ⟨hfits, hstep⟩), ?_, ?_, nofun⟩
    · refine Eq.trans ?_ h.node
      have hnode := getSessionNode_processSessionNode c.mtu id c.nodePool r.batch.conn n
      rwa [processSessionNode_of_accepts haccepts] at hnode
    · rw [Reader.copy]
      dsimp only
      rw [if_pos rfl, BatchRun.collect, List.filter_append, hmatched]
      simp [hbelongs]
  | false =>
    have hbelongs : ¬ c.Belongs i n := fun hb ↦ absurd (hacc.2 hb) (by decide)
    refine ⟨h.batch, h.node, ?_, nofun⟩
    rw [Reader.copy]
    dsimp only
    rw [List.filter_append]
    simp [hbelongs, hmatched]

end

/-- And of the ring. -/
structure SharedRing.Inv (c : SharedSetup ι) (s : SharedRing N ι) : Prop where
  written : ∀ n ∈ s.written, n.Proper c.mtu
  readers : ∀ i, ∀ r ∈ s.readers i, r.Inv c i

theorem SharedRing.Inv.init [NeZero N] (c : SharedSetup ι) (ring : Fin N → Node) :
    (SharedRing.init ring).Inv c :=
  ⟨List.forall_mem_nil _, fun _ _ hr ↦ absurd hr (by simp [SharedRing.init])⟩

/-- Nothing belongs to two sessions. -/
theorem SharedSetup.Distinct.exclusive {c : SharedSetup ι} (h : c.Distinct) {l : List Node}
    (hl : ∀ n ∈ l, n.Proper c.mtu) : Exclusive c.Belongs l := by
  have hpeer (i : ι) : ∀ m ∈ c.peer i, m.Sized := by
    intro m hm
    obtain ⟨k, -, rfl⟩ := Option.map_eq_some_iff.1 hm
    exact h.sized k
  exact fun n hn i j hi hj ↦
    h.inj i j (nodeCmp_trans_zero (hl n hn).sized (hpeer i) (hpeer j) hi hj)

/-! ## Workers that keep pace -/

/-- What is kept of a worker in time: it has processed the writes since its start, each once and in
their order, is less than a lap behind the writer, and copies the node that it has compared. -/
structure Reader.OnTime (hN : 2 ≤ N) (c : SharedSetup ι) (written : List Node) (i : ι)
    (r : Reader N) : Prop where
  cursor : r.cursor = .entry (slot hN (r.start + r.moves))
  le : r.start + r.moves ≤ written.length
  lap : written.length - (r.start + r.moves) < N - 1
  count : r.processed.length = r.moves + if r.pc = .waiting then 1 else 0
  seen : r.pc = .waiting → r.start + r.moves < written.length
  compared : ∀ accepted, r.pc = .copying accepted →
    ∃ n, written[r.start + r.moves]? = some n ∧ (accepted = true ↔ c.Belongs i n)
  processed : r.processed = (written.drop r.start).take r.processed.length

/-- And of the ring: it holds the writes of the last lap, but for the slot at the cursor. -/
structure SharedRing.OnTime (hN : 2 ≤ N) (c : SharedSetup ι) (s : SharedRing N ι) : Prop where
  cursor : s.cursor = .entry (slot hN s.written.length)
  ring : ∀ w, w < s.written.length → s.written.length < w + (N - 1) →
    s.written[w]? = some (s.ring (slot hN w))
  readers : ∀ i, ∀ r ∈ s.readers i, r.OnTime hN c s.written i

namespace Reader.OnTime

variable {hN : 2 ≤ N} {c : SharedSetup ι} {written : List Node} {i : ι} {r : Reader N}

/-- What a worker has processed lies within what was written. -/
theorem length_le (h : r.OnTime hN c written i) :
    r.processed.length ≤ (written.drop r.start).length := by
  have hlen := congrArg List.length h.processed
  rw [List.length_take] at hlen
  omega

theorem write (h : r.OnTime hN c written i) (n : Node)
    (hlap : written.length + 1 - (r.start + r.moves) < N - 1) :
    r.OnTime hN c (written ++ [n]) i := by
  have hle := h.le
  have hlen : (written ++ [n]).length = written.length + 1 := by simp
  refine ⟨h.cursor, by omega, by omega, h.count, fun hp ↦ ?_, fun accepted hp ↦ ?_, ?_⟩
  · have hseen := h.seen hp
    omega
  · obtain ⟨m, hm, hacc⟩ := h.compared accepted hp
    obtain ⟨hlt, -⟩ := List.getElem?_eq_some_iff.1 hm
    exact ⟨m, by rw [List.getElem?_append_left hlt]; exact hm, hacc⟩
  · rw [List.drop_append_of_le_length (by omega), List.take_append_of_le_length h.length_le]
    exact h.processed

theorem advance [NeZero N] (h : r.OnTime hN c written i) (hp : r.pc = .waiting) :
    r.advance.OnTime hN c written i := by
  have hseen := h.seen hp
  have hlap := h.lap
  have hcursor : iterate r.cursor = .entry (slot hN (r.start + (r.moves + 1))) := by
    rw [h.cursor]
    exact iterate_slot hN _
  have hcount : r.processed.length = r.moves + 1 + 0 := by rw [h.count, if_pos hp]
  have hlap' : written.length - (r.start + (r.moves + 1)) < N - 1 := by omega
  exact ⟨hcursor, hseen, hlap', hcount, nofun, nofun, h.processed⟩

/-- Behind the cursor a worker finds the write that it has come to. -/
theorem compare {r' : Reader N} (h : r.OnTime hN c written i) (hinv : r.Inv c i)
    (hp : r.pc = .comparing) {n : Node} (hn : written[r.start + r.moves]? = some n)
    {fresh : ℕ → Node} (hs : r.compare c n fresh = some r') : r'.OnTime hN c written i := by
  obtain ⟨-, accepted, rfl, hacc⟩ := hinv.compare hs
  have hcount := h.count
  rw [hp] at hcount
  refine ⟨h.cursor, h.le, h.lap, hcount, nofun, fun accepted' hp' ↦ ?_, h.processed⟩
  obtain rfl := ReaderPc.copying.inj hp'
  exact ⟨n, hn, hacc⟩

theorem copy (h : r.OnTime hN c written i) {accepted : Bool} (hp : r.pc = .copying accepted)
    {n : Node} (hn : written[r.start + r.moves]? = some n) :
    (r.copy c n accepted).OnTime hN c written i := by
  have hcount : r.processed.length = r.moves := by rw [h.count, hp]; rfl
  obtain ⟨hlt, -⟩ := List.getElem?_eq_some_iff.1 hn
  refine ⟨h.cursor, h.le, h.lap, by simp [Reader.copy, hcount], fun _ ↦ hlt, nofun, ?_⟩
  have hnext : (written.drop r.start)[r.moves]? = some n := by
    rw [List.getElem?_drop]
    exact hn
  rw [Reader.copy]
  dsimp only
  rw [List.length_append, List.length_singleton, hcount, List.take_add_one, hnext,
    Option.toList_some, ← hcount, ← h.processed]

end Reader.OnTime

namespace SharedRing.OnTime

variable {hN : 2 ≤ N} {c : SharedSetup ι} {s t : SharedRing N ι} {i : ι} {r : Reader N}

/-- The writer is at the slot of the next write. -/
theorem cursor_eq (h : s.OnTime hN c) {k : Fin N} (hk : s.cursor = .entry k) :
    k = slot hN s.written.length :=
  Elm.entry.inj (hk.symm.trans h.cursor)

/-- Which is not that of a write of the last lap. -/
theorem slot_ne_cursor (h : s.OnTime hN c) {k : Fin N} (hk : s.cursor = .entry k) {w : ℕ}
    (hw : w < s.written.length) (hlap : s.written.length < w + (N - 1)) : slot hN w ≠ k := by
  intro heq
  have hsame := slot_inj hN hw.le (by omega) (heq.trans (h.cursor_eq hk))
  omega

/-- The slot of a worker that has not come to the cursor holds the write that it has come to. -/
theorem ring_eq (h : s.OnTime hN c) (hr : s.readers i = some r)
    (hlt : r.start + r.moves < s.written.length) {k : Fin N} (hk : r.cursor = .entry k) :
    s.written[r.start + r.moves]? = some (s.ring k) := by
  obtain ⟨hcursor, -, hlap, -⟩ := h.readers i r hr
  have hslot : k = slot hN (r.start + r.moves) := by
    rw [hcursor] at hk
    exact (Elm.entry.inj hk).symm
  rw [hslot]
  exact h.ring _ hlt (by omega)

/-- Behind the cursor means that there is a write that the worker has come to. -/
theorem behind (h : s.OnTime hN c) {l : RingLayout} (hr : s.readers i = some r)
    (hbehind : isBehindCursor l r.cursor s.cursor = true) :
    r.start + r.moves < s.written.length := by
  obtain ⟨hcursor, hle, -⟩ := h.readers i r hr
  rw [hcursor, h.cursor, isBehindCursor_iff] at hbehind
  exact lt_of_le_of_ne hle fun heq ↦ hbehind (by rw [heq])

/-- What a worker copies is what it has compared. -/
theorem compared (h : s.OnTime hN c) (hr : s.readers i = some r) {accepted : Bool}
    (hp : r.pc = .copying accepted) {k : Fin N} (hk : r.cursor = .entry k) :
    s.written[r.start + r.moves]? = some (s.ring k) ∧
      (accepted = true ↔ c.Belongs i (s.ring k)) := by
  obtain ⟨n, hn, hacc⟩ := (h.readers i r hr).compared accepted hp
  have hring := h.ring_eq hr (List.getElem?_eq_some_iff.1 hn).1 hk
  obtain rfl := Option.some.inj (hn.symm.trans hring)
  exact ⟨hring, hacc⟩

variable [NeZero N]

theorem init (hN : 2 ≤ N) (c : SharedSetup ι) (ring : Fin N → Node) :
    (SharedRing.init ring).OnTime hN c where
  cursor := circleqFirst_eq_slot hN
  ring w hw := absurd hw (Nat.not_lt_zero w)
  readers i r hr := absurd hr (by simp [SharedRing.init])

variable [DecidableEq ι]

/-- The slot at the cursor holds none of the writes that a worker may still read. -/
theorem tear (h : s.OnTime hN c) {n : Node} (hs : sharedStep c s (.tear n) = some t) :
    t.OnTime hN c := by
  obtain ⟨k, hk, rfl⟩ := sharedStep_tear hs
  refine ⟨h.cursor, fun w hw hw' ↦ ?_, h.readers⟩
  dsimp only at hw hw' ⊢
  rw [Function.update_of_ne (h.slot_ne_cursor hk hw hw')]
  exact h.ring w hw hw'

theorem write (h : s.OnTime hN c) {n : Node} (hok : c.StepInTime s (.write n))
    (hs : sharedStep c s (.write n) = some t) : t.OnTime hN c := by
  obtain ⟨k, hk, rfl⟩ := sharedStep_write hs
  have hlen : (s.written ++ [n]).length = s.written.length + 1 := by simp
  refine ⟨?_, fun w hw hw' ↦ ?_, fun i r hr ↦ (h.readers i r hr).write n (hok.2 i r hr)⟩
  · dsimp only
    rw [h.cursor, hlen]
    exact foward_slot hN _
  · dsimp only at hw hw' ⊢
    rw [hlen] at hw hw'
    by_cases hlast : w = s.written.length
    · rw [hlast, ← h.cursor_eq hk, Function.update_self]
      simp
    · have hne := h.slot_ne_cursor hk (w := w) (by omega) (by omega)
      rw [Function.update_of_ne hne, List.getElem?_append_left (by omega)]
      exact h.ring w (by omega) (by omega)

theorem step (h : s.OnTime hN c) (hinv : s.Inv c) {e : SharedEvent ι} (hok : c.StepInTime s e)
    (hs : sharedStep c s e = some t) : t.OnTime hN c := by
  cases e with
  | tear n => exact h.tear hs
  | write n => exact h.write hok hs
  | start i =>
    obtain rfl := sharedStep_start hs
    refine ⟨h.cursor, h.ring, forall_setReader h.readers ?_⟩
    exact ⟨h.cursor, Nat.le_refl _, by simp [newReader]; omega, rfl, nofun, nofun, rfl⟩
  | compare i fresh =>
    obtain ⟨r, k, r', hr, hk, hp, hr', rfl⟩ := sharedStep_compare hs
    have hring := h.ring_eq hr (h.behind hr (hok r hr)) hk
    exact ⟨h.cursor, h.ring, forall_setReader h.readers
      ((h.readers i r hr).compare (hinv.readers i r hr) hp hring hr')⟩
  | copy i =>
    obtain ⟨r, k, accepted, hr, hk, hp, rfl⟩ := sharedStep_copy hs
    exact ⟨h.cursor, h.ring, forall_setReader h.readers
      ((h.readers i r hr).copy hp (h.compared hr hp hk).1)⟩
  | advance i =>
    obtain ⟨r, hr, hp, rfl⟩ := sharedStep_advance hs
    exact ⟨h.cursor, h.ring, forall_setReader h.readers ((h.readers i r hr).advance hp)⟩

end SharedRing.OnTime

theorem SharedRing.Inv.step [NeZero N] [DecidableEq ι] {hN : 2 ≤ N} {c : SharedSetup ι}
    {s t : SharedRing N ι} (h : s.Inv c) (ht : s.OnTime hN c) {e : SharedEvent ι}
    (hok : c.StepInTime s e) (hs : sharedStep c s e = some t) : t.Inv c := by
  cases e with
  | tear n =>
    obtain ⟨k, -, rfl⟩ := sharedStep_tear hs
    exact ⟨h.written, h.readers⟩
  | write n =>
    obtain ⟨k, -, rfl⟩ := sharedStep_write hs
    refine ⟨fun m hm ↦ ?_, h.readers⟩
    rcases List.mem_append.1 hm with hmem | hlast
    · exact h.written m hmem
    · exact List.mem_singleton.1 hlast ▸ hok.1
  | start i =>
    obtain rfl := sharedStep_start hs
    exact ⟨h.written, forall_setReader h.readers (s.inv_newReader c i)⟩
  | compare i fresh =>
    obtain ⟨r, k, r', hr, -, -, hr', rfl⟩ := sharedStep_compare hs
    exact ⟨h.written, forall_setReader h.readers ((h.readers i r hr).compare hr').1⟩
  | copy i =>
    obtain ⟨r, k, accepted, hr, hk, hp, rfl⟩ := sharedStep_copy hs
    obtain ⟨hring, hacc⟩ := ht.compared hr hp hk
    have hproper := h.written _ (List.mem_of_getElem? hring)
    exact ⟨h.written, forall_setReader h.readers ((h.readers i r hr).copy hp hproper hacc)⟩
  | advance i =>
    obtain ⟨r, hr, -, rfl⟩ := sharedStep_advance hs
    obtain ⟨hbatch, hnode, hmatched, -⟩ := h.readers i r hr
    exact ⟨h.written, forall_setReader h.readers ⟨hbatch, hnode, hmatched, nofun⟩⟩

/-! ## What the sessions get -/

/-- No node has got to a session that it does not belong to, or to two sessions. -/
structure SharedRing.Routed (c : SharedSetup ι) (s : SharedRing N ι) : Prop where
  own : ∀ i, ∀ r ∈ s.readers i, r.taken = r.processed.filter (c.Belongs i)
  apart : ∀ i j, ∀ n ∈ s.taken i, n ∈ s.taken j → i = j

/-- Every worker has processed the writes since its start, in order, and its session has those that
belong to it in batches.  Together the sessions have no write more often than it was made, and when
all workers have seen all writes, and each of these belongs to a session, they have all of them. -/
structure SharedRing.Delivered [Fintype ι] (c : SharedSetup ι) (s : SharedRing N ι) : Prop where
  inOrder : ∀ i, ∀ r ∈ s.readers i,
    r.processed = (s.written.drop r.start).take r.processed.length
  batches : ∀ i, ∀ r ∈ s.readers i, (r.batch.batches, r.batch.conn.live) =
    cutNodes c.mtu (r.processed.filter (c.Belongs i))
  once : ∑ i, (s.taken i : Multiset Node) ≤ (s.written : Multiset Node)
  all : (∀ i, ∃ r ∈ s.readers i, r.processed = s.written) →
    (∀ n ∈ s.written, ∃ i, c.Belongs i n) →
      ∑ i, (s.taken i : Multiset Node) = (s.written : Multiset Node)

namespace SharedRing.Inv

variable {c : SharedSetup ι} {s : SharedRing N ι} {hN : 2 ≤ N}

theorem taken_eq (h : s.Inv c) (i : ι) : s.taken i = (s.seen i).filter (c.Belongs i) := by
  rw [taken, seen]
  cases hr : s.readers i with
  | none => rfl
  | some r => exact (h.readers i r hr).taken_eq

theorem seen_sublist (ht : s.OnTime hN c) (i : ι) : (s.seen i).Sublist s.written := by
  rw [seen]
  cases hr : s.readers i with
  | none => exact List.nil_sublist _
  | some r =>
    rw [Option.map_some, Option.getD_some, (ht.readers i r hr).processed]
    exact (List.take_sublist _ _).trans (List.drop_sublist _ _)

theorem routed (h : s.Inv c) (ht : s.OnTime hN c) (hc : c.Distinct) : s.Routed c where
  own i r hr := (h.readers i r hr).taken_eq
  apart i j n hi hj := by
    rw [h.taken_eq, List.mem_filter, decide_eq_true_iff] at hi hj
    have hseen : ∀ m ∈ s.seen i, m.Proper c.mtu :=
      fun m hm ↦ h.written m ((seen_sublist ht i).subset hm)
    exact hc.exclusive hseen n hi.1 i j hi.2 hj.2

theorem delivered [Fintype ι] (h : s.Inv c) (ht : s.OnTime hN c) (hc : c.Distinct) :
    s.Delivered c where
  inOrder i r hr := (ht.readers i r hr).processed
  batches i r hr := by rw [← (h.readers i r hr).matched, (h.readers i r hr).batch.cut]
  once := by
    simp only [h.taken_eq]
    exact sum_pick_le (hc.exclusive h.written) s.seen (seen_sublist ht)
  all hread hsome := by
    have hseen (i : ι) : s.seen i = s.written := by
      obtain ⟨r, hr, hall⟩ := hread i
      rw [seen, Option.mem_def.1 hr]
      exact hall
    simp only [h.taken_eq, hseen]
    exact sum_pick_eq (hc.exclusive h.written) hsome

end SharedRing.Inv

/-- **The sessions divide the ring among them.**  For every ring of at least two entries, whatever
is in it, and every set of sessions whose nodes are different for `node_cmp`, over every
interleaving of the writer and the workers in which the workers keep pace, each started at the
writer's cursor at some time:

* no node gets to a session that it does not belong to, and none to two sessions;
* every worker sees each write since its start once, in order, and its session's batches and pool
  are those that belong to it; no write gets to the sessions more often than it was made; and when
  all have been seen by all workers and each belongs to a session, all have got to the sessions. -/
theorem sessions_share_ring [NeZero N] [Fintype ι] [DecidableEq ι] (hN : 2 ≤ N)
    (c : SharedSetup ι) (hc : c.Distinct) (ring : Fin N → Node) (es : List (SharedEvent ι)) :
    Always (restrict (sharedStep c) c.StepInTime) (fun s ↦ s.Routed c ∧ s.Delivered c)
      (.init ring) es := by
  refine always_of_invariant (fun s ↦ s.Inv c ∧ s.OnTime hN c)
    (fun _ h ↦ ⟨h.1.routed h.2 hc, h.1.delivered h.2 hc⟩) ?_ es ⟨.init c ring, .init hN c ring⟩
  rintro s e t ⟨h, ht⟩ hs
  obtain ⟨hok, hs⟩ := restrict_eq_some.1 hs
  exact ⟨h.step ht hok hs, ht.step h hok hs⟩

/-- Two TCP sessions, of the peers with the descriptors 3 and 4. -/
def twoSessions : SharedSetup Bool where
  mtu := .mtu1500
  layout := ⟨0x1000, 0x800, 1520, by decide⟩
  nodePool k := { Node.zero .mtu1500 with fd := 3 + k }
  entry i := { emptySession with session := { emptySession.session with node := some i.toNat } }

theorem twoSessions_distinct : twoSessions.Distinct where
  sized _ := ⟨List.length_replicate, List.length_replicate⟩
  inj := by decide

/-- One node is written for each of them, and both workers see both. -/
def twoSessionsRun : List (SharedEvent Bool) :=
  let fresh : ℕ → Node := fun _ ↦ .zero .mtu1500
  [.start false, .start true, .tear (twoSessions.nodePool 1), .write (twoSessions.nodePool 0),
    .compare false fresh, .compare true fresh, .tear (twoSessions.nodePool 0), .copy true,
    .copy false, .advance false, .write (twoSessions.nodePool 1), .advance true,
    .compare true fresh, .compare false fresh, .copy false, .copy true]

theorem sessions_share_ring_two :
    Always (restrict (sharedStep twoSessions) twoSessions.StepInTime)
      (fun s ↦ s.Routed twoSessions ∧ s.Delivered twoSessions)
      (.init fun _ : Fin 4 ↦ .zero .mtu1500) twoSessionsRun :=
  sessions_share_ring (by decide) twoSessions twoSessions_distinct _ _

-- the workers keep pace in it, so it is run to its end
example : (run (restrict (sharedStep twoSessions) twoSessions.StepInTime)
    (.init fun _ : Fin 4 ↦ .zero .mtu1500) twoSessionsRun).isSome = true := by
  decide +kernel

end DmmrOrbit
