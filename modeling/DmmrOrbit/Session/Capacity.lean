import DmmrOrbit.Lib.Transition
import DmmrOrbit.Session.Batching
import DmmrOrbit.Session.Concurrent
import DmmrOrbit.Session.SessionConnection

/-!
# The capacity of a pool

Four functions change `pool_size` and `pool_count`: `insert_session` allocates the pool,
`session_worker` doubles it when it is full and has `process_session_node` append and compact,
`sched_trigger_snd` clears it, and `sched_snd` sends its first nodes and moves the others to the
front.  The last one lowers `pool_count` by the number of nodes it has sent, although there may be
fewer, and it lowers `pool_size` as well, although the array stays as it is.

The functions run one at a time here.  `capacity_law_iff` says that `pool_size` is the length of the
array and not 0, that `pool_count` is at most that, and that no counter wraps and no store goes past
the array, if and only if `sched_snd` never gets to a session with a connection, and every
`insert_session` gets its memory.  That the doubling never wraps is the batching law once more:
below `VALUE_OUTPUT_BUFFER_SIZE` bytes there are fewer nodes than that.
-/

set_option autoImplicit false

namespace DmmrOrbit

open Transition Batching

/-! ## One session -/

/-- A session's entry, and what went wrong so far: whether a counter has wrapped, and whether a node
was stored at a `pool_count` that is not below `pool_size`. -/
structure CapacityRun where
  conn : SessionConnectionPool Node
  wrapped : Bool
  badStore : Bool

/-- What is done to the session. -/
inductive CapacityEvent
  /-- `insert_session`, with what `calloc` returns. -/
  | insert (calloc : Bool)
  /-- A turn of `session_worker` with the node at the cursor; `fresh` is the new memory, if the pool
  has to grow. -/
  | worker (e : CursorNode) (fresh : ℕ → Node)
  | trigger
  /-- `sched_snd` with `n = pool->pool`. -/
  | snd

/-- The entry as `insert_session` makes it before it asks for the ring's current node. -/
def SessionConnectionPool.inserted (mtu : MtuProfile) (conn : SessionConnectionPool Node)
    (calloc : Bool) : SessionConnectionPool Node :=
  if calloc then
    { conn with
      pool := List.replicate 0x400 (.zero mtu)
      poolSize := 0x400
      poolCount := 0
      run := true }
  else { conn with pool := [] }

/-- That is what a call of `insert_session` leaves in the session table. -/
theorem insertSession_process (mtu : MtuProfile) (results : InsertResults) (fuel : ℕ) {w : Process}
    (p : RecnoIndex) (hring : w.circleBuffer = true) :
    (insertSession mtu results fuel w p).process =
      some (w.setEntry p ((w.recno p).inserted mtu results.calloc)) := by
  rw [insertSession, getCurrentNode_eq_none, if_neg (by simp [hring])]
  cases hcalloc : results.calloc with
  | true => rfl
  | false => rfl

/-- The growth test of `session_worker`, with a `realloc` that succeeds. -/
def SessionConnectionPool.grown (conn : SessionConnectionPool Node) (fresh : ℕ → Node) :
    SessionConnectionPool Node :=
  if conn.mustGrow then conn.grow (some fresh) else conn

/-- `pool_size *= 2` wraps. -/
def SessionConnectionPool.growthWraps (conn : SessionConnectionPool Node) : Prop :=
  conn.mustGrow ∧ ¬ conn.poolSize * 2 < 2 ^ 32

instance (conn : SessionConnectionPool Node) : Decidable conn.growthWraps :=
  inferInstanceAs (Decidable (_ ∧ _))

/-- The nodes that `sched_snd` sends. -/
def SessionConnectionPool.sndSize (conn : SessionConnectionPool Node) : ℕ :=
  if conn.poolSize < MtuProfile.valueOutputSize then conn.poolSize else MtuProfile.valueOutputSize

/-- One call.  The worker takes nodes of one byte to `VALUE_BUFFER_SIZE`. -/
def capacityStep (mtu : MtuProfile) (s : CapacityRun) : CapacityEvent → Option CapacityRun
  | .insert calloc => some { s with conn := s.conn.inserted mtu calloc }
  | .worker e fresh =>
    if 1 ≤ e.node.size ∧ e.Fits mtu then
      let conn := s.conn.grown fresh
      some
        { conn := (processSessionNode mtu id e.nodePool conn e.node).1
          wrapped := s.wrapped || decide s.conn.growthWraps
          badStore := s.badStore ||
            decide (conn.Accepts e.nodePool e.node ∧ ¬ conn.poolCount < conn.poolSize) }
    else none
  | .trigger => some { s with conn := (schedTriggerSnd (.zero mtu) ⟨0, 0, 0⟩ s.conn).2.1 }
  | .snd =>
    some { s with
      conn := (schedSndPool id ⟨0, 0, 0⟩ s.conn).2.1
      wrapped := s.wrapped ||
        (getSessionPointer s.conn.session).isSome && decide (s.conn.poolCount < s.conn.sndSize) }

namespace CapacityRun

/-- A session that was inserted. -/
def start (mtu : MtuProfile) (conn : SessionConnectionPool Node) : CapacityRun :=
  ⟨conn.inserted mtu true, false, false⟩

/-- What should hold of the counters. -/
structure Law (s : CapacityRun) : Prop where
  size : s.conn.pool.length = s.conn.poolSize
  pos : 0 < s.conn.poolSize
  count : s.conn.poolCount ≤ s.conn.poolSize
  noWrap : s.wrapped = false
  stores : s.badStore = false

/-- The calls that keep it. -/
def StepOk (s : CapacityRun) : CapacityEvent → Prop
  | .insert calloc => calloc = true
  | .worker _ _ => True
  | .trigger => True
  | .snd => getSessionPointer s.conn.session = none

/-- What is kept: a pool that is below the bound, with nodes of one byte or more, and an array that
is not much larger than that takes. -/
structure Inv (mtu : MtuProfile) (s : CapacityRun) : Prop where
  wf : s.conn.Wf
  pos : 0 < s.conn.poolSize
  pending : weight Node.size s.conn.live < mtu.valueOutputBufferSize
  nonempty : ∀ n ∈ s.conn.live, 1 ≤ n.size
  size_le : s.conn.poolSize ≤ 2 * mtu.valueOutputBufferSize
  noWrap : s.wrapped = false
  stores : s.badStore = false

variable {mtu : MtuProfile} {s t : CapacityRun}

theorem Inv.law (h : s.Inv mtu) : s.Law :=
  ⟨h.wf.size, h.pos, h.wf.count, h.noWrap, h.stores⟩

/-- There are fewer nodes than bytes. -/
theorem Inv.poolCount_lt (h : s.Inv mtu) : s.conn.poolCount < mtu.valueOutputBufferSize := by
  have hlen := length_le_weight h.nonempty
  rw [h.wf.length_live] at hlen
  exact Nat.lt_of_le_of_lt hlen h.pending

/-- An empty pool, such as `insert_session` or a trigger leaves. -/
theorem Inv.of_empty (hwf : s.conn.Wf) (hpos : 0 < s.conn.poolSize) (hlive : s.conn.live = [])
    (hsize : s.conn.poolSize ≤ 2 * mtu.valueOutputBufferSize) (hwrap : s.wrapped = false)
    (hstore : s.badStore = false) : s.Inv mtu where
  wf := hwf
  pos := hpos
  pending := by rw [hlive]; exact mtu.valueOutputBufferSize_bounds.1
  nonempty := by rw [hlive]; exact List.forall_mem_nil _
  size_le := hsize
  noWrap := hwrap
  stores := hstore

theorem Inv.inserted (conn : SessionConnectionPool Node) {wrapped badStore : Bool}
    (hwrap : wrapped = false) (hstore : badStore = false) :
    (⟨conn.inserted mtu true, wrapped, badStore⟩ : CapacityRun).Inv mtu :=
  .of_empty ⟨List.length_replicate, by show 0x400 < 2 ^ 32; decide, Nat.zero_le _⟩
    (by show 0 < 0x400; decide) List.take_zero
    (by show 0x400 ≤ 2 * mtu.valueOutputBufferSize; cases mtu <;> decide) hwrap hstore

/-- The pool is grown if it is full, and then there is room; what is in it stays. -/
theorem Inv.grown (h : s.Inv mtu) (fresh : ℕ → Node) :
    ¬ s.conn.growthWraps ∧ (s.conn.grown fresh).Wf ∧
      (s.conn.grown fresh).poolCount < (s.conn.grown fresh).poolSize ∧
      (s.conn.grown fresh).live = s.conn.live ∧
      (s.conn.grown fresh).poolSize ≤ 2 * mtu.valueOutputBufferSize := by
  obtain ⟨-, hfit⟩ := mtu.valueOutputBufferSize_bounds
  have hpos := h.pos
  have hsize := h.size_le
  have hlt := h.poolCount_lt
  have hgrow := h.wf.mustGrow_iff (by omega)
  rw [SessionConnectionPool.growthWraps, SessionConnectionPool.grown]
  split
  · next hmust =>
    have hfull := hgrow.1 hmust
    have hdouble : s.conn.poolSize * 2 < 2 ^ 32 := by omega
    obtain ⟨hlive, hwf⟩ := h.wf.live_grow hdouble fresh
    have hsize' : (s.conn.grow (some fresh)).poolSize = s.conn.poolSize * 2 :=
      Nat.mod_eq_of_lt hdouble
    refine ⟨fun hw ↦ hw.2 hdouble, hwf, ?_, hlive, by omega⟩
    show s.conn.poolCount < (s.conn.grow (some fresh)).poolSize
    omega
  · next hmust =>
    exact ⟨fun hw ↦ hmust hw.1, h.wf, lt_of_le_of_ne h.wf.count (mt hgrow.2 hmust), rfl, hsize⟩

theorem Inv.worker_step (h : s.Inv mtu) {e : CursorNode} {fresh : ℕ → Node}
    (hs : capacityStep mtu s (.worker e fresh) = some t) : t.Inv mtu := by
  rw [capacityStep, Option.ite_none_right_eq_some] at hs
  obtain ⟨⟨hone, hfits⟩, hs⟩ := hs
  obtain ⟨hgrowth, hwf, hroom, hlive, hsize⟩ := h.grown fresh
  have hpending := h.pending
  have hpos := Nat.zero_lt_of_lt hroom
  have hwf' := hwf.processSessionNode hroom mtu id e.nodePool e.node
  have hsize' := poolSize_processSessionNode mtu id e.nodePool (s.conn.grown fresh) e.node
  have hwrap : (s.wrapped || decide s.conn.growthWraps) = false := by simp [h.noWrap, hgrowth]
  have hstore : (s.badStore || decide ((s.conn.grown fresh).Accepts e.nodePool e.node ∧
      ¬ (s.conn.grown fresh).poolCount < (s.conn.grown fresh).poolSize)) = false := by
    simp [h.stores, hroom]
  obtain rfl := Option.some.inj hs
  by_cases hacc : (s.conn.grown fresh).Accepts e.nodePool e.node
  · have hspec := processSessionNode_spec hwf hroom hacc (hlive ▸ hpending) hfits
    split at hspec
    · exact .of_empty hwf' (hsize' ▸ hpos) hspec.2 (hsize' ▸ hsize) hwrap hstore
    · next hlt =>
      refine ⟨hwf', hsize' ▸ hpos, ?_, ?_, hsize' ▸ hsize, hwrap, hstore⟩
      · rw [hspec.2]
        exact Nat.not_le.1 hlt
      · rw [hspec.2, hlive]
        intro n hn
        rcases List.mem_append.1 hn with hmem | hlast
        · exact h.nonempty n hmem
        · exact List.mem_singleton.1 hlast ▸ hone
  · have hout : (processSessionNode mtu id e.nodePool (s.conn.grown fresh) e.node).1 =
        s.conn.grown fresh := by rw [processSessionNode_of_not_accepts hacc]
    refine ⟨hwf', hsize' ▸ hpos, ?_, ?_, hsize' ▸ hsize, hwrap, hstore⟩
    · rw [hout, hlive]
      exact hpending
    · rw [hout, hlive]
      exact h.nonempty

/-- A trigger clears the pool of a session with a connection. -/
theorem Inv.trigger_step (h : s.Inv mtu) (hs : capacityStep mtu s .trigger = some t) :
    t.Inv mtu := by
  obtain rfl := Option.some.inj hs
  cases hlink : getSessionPointer s.conn.session with
  | none =>
    have hout : (schedTriggerSnd (.zero mtu) ⟨0, 0, 0⟩ s.conn).2.1 = s.conn := by
      rw [schedTriggerSnd, hlink]
    rw [hout]
    exact h
  | some p =>
    have hout : (schedTriggerSnd (.zero mtu) ⟨0, 0, 0⟩ s.conn).2.1 =
        { s.conn with pool := s.conn.pool.map fun _ ↦ .zero mtu, poolCount := 0 } := by
      rw [schedTriggerSnd, hlink]
    rw [hout]
    exact .of_empty ⟨by rw [List.length_map, h.wf.size], h.wf.lt, Nat.zero_le _⟩ h.pos
      List.take_zero h.size_le h.noWrap h.stores

theorem schedSndPool_of_none {sc : SchedulerConnection} {conn : SessionConnectionPool Node}
    (hlink : getSessionPointer conn.session = none) : (schedSndPool id sc conn).2.1 = conn := by
  rw [schedSndPool, schedSnd, hlink]

/-- `sched_snd` on a session with a connection takes away of `pool_size` what it has sent, and
leaves the array as long as it was. -/
theorem schedSndPool_of_some (sc : SchedulerConnection) {conn : SessionConnectionPool Node}
    {p : CbPtr} (hlink : getSessionPointer conn.session = some p)
    (hsize : conn.pool.length = conn.poolSize) :
    (schedSndPool id sc conn).2.1.pool.length = conn.poolSize ∧
      (schedSndPool id sc conn).2.1.poolSize = conn.poolSize - conn.sndSize := by
  rw [schedSndPool, schedSnd, hlink, SessionConnectionPool.sndSize]
  refine ⟨?_, rfl⟩
  rw [length_overlay, hsize]
  rw [List.length_take, List.length_drop]
  omega

theorem Inv.step (h : s.Inv mtu) (e : CapacityEvent) (hok : s.StepOk e)
    (hs : capacityStep mtu s e = some t) : t.Inv mtu := by
  cases e with
  | insert calloc =>
    obtain rfl : calloc = true := hok
    obtain rfl := Option.some.inj hs
    exact .inserted s.conn h.noWrap h.stores
  | worker e fresh => exact h.worker_step hs
  | trigger => exact h.trigger_step hs
  | snd =>
    obtain rfl := Option.some.inj hs
    have hlink : getSessionPointer s.conn.session = none := hok
    rw [schedSndPool_of_none hlink, hlink, Option.isSome_none, Bool.false_and, Bool.or_false]
    exact h

/-- Without memory the pool is gone, and after `sched_snd` the array is longer than `pool_size`. -/
theorem Inv.step_bad (h : s.Inv mtu) (e : CapacityEvent) (hbad : ¬ s.StepOk e)
    (hs : capacityStep mtu s e = some t) : ¬ t.Law := by
  cases e with
  | insert calloc =>
    obtain rfl : calloc = false := Bool.eq_false_iff.2 hbad
    obtain rfl := Option.some.inj hs
    intro hlaw
    have hpos := h.pos
    have hsize : 0 = s.conn.poolSize := hlaw.size
    omega
  | worker e fresh => exact absurd trivial hbad
  | trigger => exact absurd trivial hbad
  | snd =>
    obtain ⟨p, hlink⟩ := Option.ne_none_iff_exists'.1 hbad
    obtain rfl := Option.some.inj hs
    intro hlaw
    have hpos := h.pos
    obtain ⟨hlen, hsize⟩ := schedSndPool_of_some ⟨0, 0, 0⟩ hlink h.wf.size
    have hlaw := hlen.symm.trans (hlaw.size.trans hsize)
    have hsnd : 0 < s.conn.sndSize := by
      rw [SessionConnectionPool.sndSize]
      split
      · exact hpos
      · decide
    omega

end CapacityRun

/-- **The counters of a pool are right exactly while `sched_snd` finds no connection.**  For both
profiles and every session that was inserted, over every sequence of inserts, turns of the worker,
triggers and calls of `sched_snd`: `pool_size` is the length of the array and not 0, `pool_count` is
at most `pool_size`, nothing wraps and every store is below `pool_size` throughout, if and only if
every further insert gets its memory and no call of `sched_snd` finds the session linked. -/
theorem capacity_law_iff (mtu : MtuProfile) (conn : SessionConnectionPool Node)
    (es : List CapacityEvent) :
    Always (capacityStep mtu) CapacityRun.Law (.start mtu conn) es ↔
      Guarded (capacityStep mtu) CapacityRun.StepOk (.start mtu conn) es :=
  always_iff_guarded (CapacityRun.Inv mtu) (fun _ h ↦ h.law) (fun _ e _ h hok hs ↦ h.step e hok hs)
    (fun _ e _ h hbad hs ↦ h.step_bad e hbad hs) es (.inserted conn rfl rfl)

/-- A linked session is inserted, and `sched_snd` is called before it has any nodes. -/
theorem capacity_law_fails :
    ¬ Always (capacityStep .mtu1500) CapacityRun.Law (.start .mtu1500 emptySession) [.snd] := by
  intro hA
  have hlast : (run (capacityStep .mtu1500) (.start .mtu1500 emptySession) [.snd]).map
      (fun t ↦ (t.conn.poolCount, t.conn.poolSize)) = some (2 ^ 32 - 6, 0x400 - 6) := by
    decide +kernel
  obtain ⟨t, ht, hcount⟩ := Option.map_eq_some_iff.1 hlast
  have hle := (hA.of_run ht).count
  rw [Prod.ext_iff] at hcount
  omega

end DmmrOrbit
