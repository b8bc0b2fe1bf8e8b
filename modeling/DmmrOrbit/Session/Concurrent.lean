import Mathlib.Data.List.GetD
import Mathlib.Data.List.Nodup
import Mathlib.Data.List.Range
import DmmrOrbit.Lib.Transition
import DmmrOrbit.Session.SessionPool

/-!
# The session worker against the scheduler

`session_worker` and `sched_trigger_snd` work on one pool.  The worker takes the pool's mutex to
grow the pool and to compact it, but appends, decides on a flush, passes the batch on and compares
its size with `pool_count` without it.  So the scheduler can pass on and clear the pool between any
two of these steps.

The cells of the pool are labelled with the number of the append that filled them.  What should hold
is `SessionThreads.Safe`: no label is passed on twice, none is lost, and `pool_count` stays between
0 and `pool_size`.  It holds as long as no trigger comes between the worker's passing on a batch and
its having removed it, and every growth of the pool succeeds; `sessionThreads_safe_iff` says that
this is exact.  Without a trigger in between, the worker's steps add up to `process_session_node`
(`run_processSessionNode`).
-/

set_option autoImplicit false

namespace DmmrOrbit

open Transition

/-! ## The two threads -/

/-- A node with the number of its append. -/
structure Labelled where
  node : Node
  serial : ℕ

/-- Where the worker is: at the head of its loop, about to append, about to decide on a flush, about
to compare the size of the batch it passed on, about to compact, or at an end because the pool could
not grow. -/
inductive WorkerPc
  | top
  | append
  | size
  | test (count : ℕ)
  | compact (count : ℕ)
  | failed
  deriving DecidableEq, Repr

/-- How many live cells were passed on but are not removed yet. -/
def WorkerPc.inFlight : WorkerPc → ℕ
  | test count => count
  | compact count => count
  | _ => 0

/-- The pool, the worker, and the history: the number of appends, the cells passed to the
dispatcher, and whether `pool_count` was ever lowered below zero. -/
structure SessionThreads where
  conn : SessionConnectionPool Labelled
  pc : WorkerPc
  appended : ℕ
  dispatched : List Labelled
  underflow : Bool

/-- A step of the worker, or a trigger.  `realloc` is what `realloc` returned when the pool had to
grow: null, or an array that goes on with these cells. -/
inductive ThreadEvent
  | grow (realloc : Option (ℕ → Labelled))
  | append (nodePool : ℕ → Node) (n : Node)
  | size
  | test
  | compact (nodePool : ℕ → Node)
  | trigger

/-- A session as `insert_session` leaves it, with its worker at the head of the loop. -/
def sessionThreads (mtu : MtuProfile) (conn : SessionConnectionPool Labelled) : SessionThreads where
  conn := { conn with
    pool := List.replicate 0x400 ⟨.zero mtu, 0⟩
    poolSize := 0x400
    poolCount := 0
    run := true }
  pc := .top
  appended := 0
  dispatched := []
  underflow := false

/-- `pool_size *= 2` and `realloc`. -/
def SessionConnectionPool.grow {α : Type} (conn : SessionConnectionPool α)
    (realloc : Option (ℕ → α)) : SessionConnectionPool α :=
  let size := conn.poolSize * 2 % 2 ^ 32
  match realloc with
  | some fresh =>
    { conn with pool := (List.range size).map fun i ↦ conn.pool.getD i (fresh i), poolSize := size }
  | none => { conn with pool := [], poolSize := size }

/-- `conn->pool_count + 1 > conn->pool_size`. -/
def SessionConnectionPool.mustGrow {α : Type} (conn : SessionConnectionPool α) : Prop :=
  (conn.poolCount + 1) % 2 ^ 32 > conn.poolSize

instance {α : Type} (conn : SessionConnectionPool α) : Decidable conn.mustGrow :=
  inferInstanceAs (Decidable (_ > _))

namespace SessionConnectionPool.Wf

variable {α : Type} {conn : SessionConnectionPool α}

/-- The pool must grow exactly when it is full. -/
theorem mustGrow_iff (h : conn.Wf) (hlt : conn.poolSize + 1 < 2 ^ 32) :
    conn.mustGrow ↔ conn.poolCount = conn.poolSize := by
  have hcount := h.count
  rw [mustGrow, Nat.mod_eq_of_lt (by omega)]
  omega

/-- A growth keeps the live cells. -/
theorem live_grow (h : conn.Wf) (hfit : conn.poolSize * 2 < 2 ^ 32) (fresh : ℕ → α) :
    (conn.grow (some fresh)).live = conn.live ∧ (conn.grow (some fresh)).Wf := by
  have hcount := h.count
  have hsize : conn.poolSize * 2 % 2 ^ 32 = conn.poolSize * 2 := Nat.mod_eq_of_lt hfit
  constructor
  · refine List.ext_getElem? fun i ↦ ?_
    rw [live, live, grow, List.getElem?_take, List.getElem?_take]
    simp only [hsize]
    by_cases hi : i < conn.poolCount
    · have hpool : i < conn.pool.length := by rw [h.size]; omega
      rw [if_pos hi, if_pos hi, List.getElem?_map, List.getElem?_range (by omega),
        List.getElem?_eq_getElem hpool, Option.map_some, List.getD_eq_getElem _ _ hpool]
    · rw [if_neg hi, if_neg hi]
  · have hlt : conn.poolSize * 2 % 2 ^ 32 < 2 ^ 32 := Nat.mod_lt _ (by omega)
    have hle : conn.poolCount ≤ conn.poolSize * 2 % 2 ^ 32 := by omega
    exact ⟨by simp [grow], hlt, hle⟩

end SessionConnectionPool.Wf

def threadStep (mtu : MtuProfile) (s : SessionThreads) : ThreadEvent → Option SessionThreads
  | .grow realloc =>
    if s.pc = .top then
      if s.conn.mustGrow then
        some { s with
          conn := s.conn.grow realloc
          pc := if realloc.isSome then .append else .failed }
      else some { s with pc := .append }
    else none
  | .append nodePool n =>
    if s.pc = .append then
      if s.conn.Accepts nodePool n then
        some { s with
          conn := s.conn.append ⟨n, s.appended⟩
          pc := .size
          appended := s.appended + 1 }
      else some { s with pc := .top }
    else none
  | .size =>
    if s.pc = .size then
      match s.conn.flushBatch mtu Labelled.node with
      | none => some { s with pc := .top }
      | some count =>
        some { s with
          pc := .test count
          dispatched := s.dispatched ++ s.conn.pool.take count }
    else none
  | .test =>
    match s.pc with
    | .test count =>
      if count ≤ s.conn.poolCount then some { s with pc := .compact count }
      else some { s with conn := { s.conn with poolCount := 0 }, pc := .top }
    | _ => none
  | .compact nodePool =>
    match s.pc with
    | .compact count =>
      some { s with
        conn := s.conn.compact Labelled.node nodePool count
        pc := .top
        underflow := s.underflow || s.conn.poolCount < count }
    | _ => none
  | .trigger =>
    let r := (schedTriggerSnd ⟨.zero mtu, 0⟩ ⟨0, 0, 0⟩ s.conn).2
    some { s with conn := r.1, dispatched := s.dispatched ++ r.2 }

/-! ## What should hold -/

/-- No append is passed on twice, none is lost, and the count stays within the pool. -/
structure SessionThreads.Safe (s : SessionThreads) : Prop where
  once : (s.dispatched.map Labelled.serial).Nodup
  kept : ∀ k < s.appended,
    k ∈ s.dispatched.map Labelled.serial ∨ k ∈ s.conn.live.map Labelled.serial
  bound : s.conn.poolCount ≤ s.conn.poolSize
  noUnderflow : s.underflow = false

/-- The steps that go well: a growth that fits in 32 bits and gets its memory, and a trigger that
does not find a batch passed on but not removed. -/
def SessionThreads.StepOk (s : SessionThreads) : ThreadEvent → Prop
  | .grow realloc => s.conn.mustGrow → realloc.isSome = true ∧ s.conn.poolSize * 2 < 2 ^ 32
  | .trigger => s.pc.inFlight = 0 ∨ getSessionPointer s.conn.session = none
  | _ => True

/-- What the two threads keep: each append is either passed on or among the live cells that are not
in flight. -/
structure SessionThreads.Inv (s : SessionThreads) : Prop where
  wf : s.conn.Wf
  pos : 0 < s.conn.poolSize
  lt : s.conn.poolSize + 1 < 2 ^ 32
  perm : ((s.dispatched ++ s.conn.live.drop s.pc.inFlight).map Labelled.serial).Perm
    (List.range s.appended)
  inFlight : s.pc.inFlight ≤ s.conn.poolCount
  passed : ∀ a ∈ s.conn.live.take s.pc.inFlight, a ∈ s.dispatched
  room : s.pc = .append → s.conn.poolCount < s.conn.poolSize
  underflow : s.underflow = false

namespace SessionThreads.Inv

variable {mtu : MtuProfile} {s t : SessionThreads}

/-- With nothing in flight there is nothing that must have been passed on. -/
theorem passed_zero (cells dispatched : List Labelled) :
    ∀ a ∈ cells.take 0, a ∈ dispatched := fun _ ha ↦ absurd ha (by simp)

theorem init (mtu : MtuProfile) (conn : SessionConnectionPool Labelled) :
    (sessionThreads mtu conn).Inv where
  wf := ⟨List.length_replicate, by show 0x400 < 2 ^ 32; decide, Nat.zero_le _⟩
  pos := by show 0 < 0x400; decide
  lt := by show 0x400 + 1 < 2 ^ 32; decide
  perm := .refl _
  inFlight := Nat.le_refl 0
  passed := passed_zero _ _
  room h := absurd (show WorkerPc.top = .append from h) (by decide)
  underflow := rfl

theorem nodup (h : s.Inv) :
    ((s.dispatched ++ s.conn.live.drop s.pc.inFlight).map Labelled.serial).Nodup :=
  h.perm.nodup_iff.2 List.nodup_range

theorem safe (h : s.Inv) : s.Safe := by
  refine ⟨?_, fun k hk ↦ ?_, h.wf.count, h.underflow⟩
  · have hnodup := h.nodup
    rw [List.map_append] at hnodup
    exact (List.nodup_append.1 hnodup).1
  · have hmem := h.perm.mem_iff.2 (List.mem_range.2 hk)
    rw [List.map_append, List.mem_append] at hmem
    rcases hmem with hsent | hlive
    · exact .inl hsent
    · obtain ⟨a, ha, rfl⟩ := List.mem_map.1 hlive
      exact .inr (List.mem_map_of_mem (List.mem_of_mem_drop ha))

theorem grow_step (h : s.Inv) {realloc : Option (ℕ → Labelled)} (hok : s.StepOk (.grow realloc))
    (hs : threadStep mtu s (.grow realloc) = some t) : t.Inv := by
  rw [threadStep] at hs
  split at hs
  · next hpc =>
    have hperm := h.perm
    rw [hpc] at hperm
    split at hs
    · next hgrow =>
      obtain ⟨hsome, hfit⟩ := hok hgrow
      obtain ⟨fresh, rfl⟩ := Option.isSome_iff_exists.1 hsome
      obtain ⟨hlive, hwf⟩ := h.wf.live_grow hfit fresh
      have hpos := h.pos
      have hsize : (s.conn.grow (some fresh)).poolSize = s.conn.poolSize * 2 :=
        Nat.mod_eq_of_lt hfit
      have hfull := (h.wf.mustGrow_iff h.lt).1 hgrow
      have hpos' : 0 < (s.conn.grow (some fresh)).poolSize := by omega
      have hlt' : (s.conn.grow (some fresh)).poolSize + 1 < 2 ^ 32 := by omega
      have hroom : s.conn.poolCount < (s.conn.grow (some fresh)).poolSize := by omega
      have hperm' : ((s.dispatched ++ (s.conn.grow (some fresh)).live.drop 0).map
          Labelled.serial).Perm (List.range s.appended) := by
        rw [hlive]
        exact hperm
      obtain rfl := Option.some.inj hs
      exact ⟨hwf, hpos', hlt', hperm', Nat.zero_le _, passed_zero _ _, fun _ ↦ hroom, h.underflow⟩
    · next hgrow =>
      rw [(h.wf.mustGrow_iff h.lt)] at hgrow
      have hroom : s.conn.poolCount < s.conn.poolSize := lt_of_le_of_ne h.wf.count hgrow
      obtain rfl := Option.some.inj hs
      exact ⟨h.wf, h.pos, h.lt, hperm, Nat.zero_le _, passed_zero _ _, fun _ ↦ hroom, h.underflow⟩
  · exact absurd hs (by simp)

/-- A growth that wraps leaves a pool smaller than its count, and one without memory loses the
nodes. -/
theorem grow_bad (h : s.Inv) {realloc : Option (ℕ → Labelled)}
    (hbad : ¬ s.StepOk (.grow realloc)) (hs : threadStep mtu s (.grow realloc) = some t) :
    ¬ t.Safe := by
  intro hsafe
  rw [SessionThreads.StepOk, Classical.not_imp] at hbad
  obtain ⟨hgrow, hbad⟩ := hbad
  have hfull := (h.wf.mustGrow_iff h.lt).1 hgrow
  rw [threadStep] at hs
  split at hs
  · next hpc =>
    obtain rfl := Option.some.inj hs
    cases realloc with
    | some fresh =>
      have hbound : s.conn.poolCount ≤ s.conn.poolSize * 2 % 2 ^ 32 := hsafe.bound
      have hlt := h.lt
      simp only [Option.isSome_some, true_and] at hbad
      omega
    | none =>
      have hpos := h.pos
      have hlen := h.wf.length_live
      obtain ⟨a, ha⟩ : ∃ a, a ∈ s.conn.live :=
        List.exists_mem_of_length_pos (by omega)
      have hdrop : a ∈ s.conn.live.drop s.pc.inFlight := by rw [hpc]; exact ha
      have happ : a.serial < s.appended := List.mem_range.1
        (h.perm.mem_iff.1 (List.mem_map_of_mem (List.mem_append_right _ hdrop)))
      have hnodup := h.nodup
      rw [List.map_append] at hnodup
      rcases hsafe.kept a.serial happ with hsent | hlive
      · exact (List.nodup_append.1 hnodup).2.2 _ hsent _ (List.mem_map_of_mem hdrop) rfl
      · simp [SessionConnectionPool.live, SessionConnectionPool.grow] at hlive
  · exact absurd hs (by simp)

theorem append_step (h : s.Inv) {nodePool : ℕ → Node} {n : Node}
    (hs : threadStep mtu s (.append nodePool n) = some t) : t.Inv := by
  rw [threadStep] at hs
  split at hs
  · next hpc =>
    have hperm := h.perm
    rw [hpc] at hperm
    have hroom := h.room hpc
    split at hs
    · obtain rfl := Option.some.inj hs
      have hlive := h.wf.live_append hroom ⟨n, s.appended⟩
      have hperm' : ((s.dispatched ++ (s.conn.append ⟨n, s.appended⟩).live.drop 0).map
          Labelled.serial).Perm (List.range (s.appended + 1)) := by
        rw [hlive, List.drop_zero, ← List.append_assoc, List.map_append, List.range_succ]
        exact hperm.append_right _
      exact ⟨h.wf.append hroom _, h.pos, h.lt, hperm', Nat.zero_le _, passed_zero _ _,
        fun hp ↦ absurd hp (by simp), h.underflow⟩
    · obtain rfl := Option.some.inj hs
      exact ⟨h.wf, h.pos, h.lt, hperm, Nat.zero_le _, passed_zero _ _,
        fun hp ↦ absurd hp (by simp), h.underflow⟩
  · exact absurd hs (by simp)

/-- Passing on a batch puts it in flight. -/
theorem size_step (h : s.Inv) (hs : threadStep mtu s .size = some t) : t.Inv := by
  rw [threadStep] at hs
  split at hs
  · next hpc =>
    have hperm := h.perm
    rw [hpc] at hperm
    split at hs
    · obtain rfl := Option.some.inj hs
      exact ⟨h.wf, h.pos, h.lt, hperm, Nat.zero_le _, passed_zero _ _,
        fun hp ↦ absurd hp (by simp), h.underflow⟩
    · next count hflush =>
      obtain ⟨-, hcount⟩ := h.wf.flushBatch_spec hflush
      have hbatch : s.conn.pool.take count = s.conn.live.take count := by
        rw [SessionConnectionPool.live, List.take_take, Nat.min_eq_left hcount]
      have hperm' : ((s.dispatched ++ s.conn.pool.take count ++ s.conn.live.drop count).map
          Labelled.serial).Perm (List.range s.appended) := by
        rw [hbatch, List.append_assoc, List.take_append_drop]
        exact hperm
      have hpassed : ∀ a ∈ s.conn.live.take count, a ∈ s.dispatched ++ s.conn.pool.take count := by
        rw [hbatch]
        exact fun a ha ↦ List.mem_append_right _ ha
      obtain rfl := Option.some.inj hs
      exact ⟨h.wf, h.pos, h.lt, hperm', hcount, hpassed, fun hp ↦ absurd hp (by simp),
        h.underflow⟩
  · exact absurd hs (by simp)

/-- The comparison finds what it should. -/
theorem test_step (h : s.Inv) (hs : threadStep mtu s .test = some t) : t.Inv := by
  rw [threadStep] at hs
  split at hs
  · next count hpc =>
    have hperm := h.perm
    have hpassed := h.passed
    have hflight : count ≤ s.conn.poolCount := by have := h.inFlight; rwa [hpc] at this
    rw [hpc] at hperm hpassed
    rw [if_pos hflight] at hs
    obtain rfl := Option.some.inj hs
    exact ⟨h.wf, h.pos, h.lt, hperm, hflight, hpassed, fun hp ↦ absurd hp (by simp), h.underflow⟩
  · exact absurd hs (by simp)

/-- Compacting removes the batch that is in flight. -/
theorem compact_step (h : s.Inv) {nodePool : ℕ → Node}
    (hs : threadStep mtu s (.compact nodePool) = some t) : t.Inv := by
  rw [threadStep] at hs
  split at hs
  · next count hpc =>
    have hperm := h.perm
    have hflight : count ≤ s.conn.poolCount := by have := h.inFlight; rwa [hpc] at this
    rw [hpc] at hperm
    have hlive := h.wf.live_compact hflight Labelled.node nodePool
    have hunderflow : (s.underflow || decide (s.conn.poolCount < count)) = false := by
      rw [h.underflow, decide_eq_false (Nat.not_lt.2 hflight)]
      rfl
    have hperm' := ((hlive.append_left s.dispatched).map Labelled.serial).trans hperm
    obtain rfl := Option.some.inj hs
    exact ⟨h.wf.compact hflight _ _, h.pos, h.lt, hperm', Nat.zero_le _, passed_zero _ _,
      fun hp ↦ absurd hp (by simp), hunderflow⟩
  · exact absurd hs (by simp)

/-- What a trigger does, linked or not. -/
theorem trigger_cases (hs : threadStep mtu s .trigger = some t) :
    (getSessionPointer s.conn.session = none ∧ t = s) ∨
    ((∃ p, getSessionPointer s.conn.session = some p) ∧ t = { s with
      conn := { s.conn with pool := s.conn.pool.map fun _ ↦ ⟨.zero mtu, 0⟩, poolCount := 0 }
      dispatched := s.dispatched ++ s.conn.live }) := by
  rw [threadStep, schedTriggerSnd] at hs
  cases hlink : getSessionPointer s.conn.session with
  | none =>
    rw [hlink] at hs
    exact .inl ⟨rfl, by simpa using (Option.some.inj hs).symm⟩
  | some p =>
    rw [hlink] at hs
    exact .inr ⟨⟨p, rfl⟩, (Option.some.inj hs).symm⟩

/-- A trigger with nothing in flight passes on all that is left. -/
theorem trigger_step (h : s.Inv) (hok : s.StepOk .trigger)
    (hs : threadStep mtu s .trigger = some t) : t.Inv := by
  rcases trigger_cases hs with ⟨-, rfl⟩ | ⟨⟨p, hp⟩, rfl⟩
  · exact h
  · have hflight : s.pc.inFlight = 0 := hok.resolve_right (by rw [hp]; simp)
    have hperm := h.perm
    rw [hflight, List.drop_zero] at hperm
    refine ⟨⟨?_, h.wf.lt, Nat.zero_le _⟩, h.pos, h.lt, ?_, ?_, fun a ha ↦ ?_, fun _ ↦ h.pos,
      h.underflow⟩
    · show (s.conn.pool.map _).length = s.conn.poolSize
      rw [List.length_map, h.wf.size]
    · simpa [SessionConnectionPool.live] using hperm
    · exact Nat.le_of_eq hflight
    · simp [SessionConnectionPool.live] at ha

/-- A trigger that finds a batch in flight passes it on once more. -/
theorem trigger_bad (h : s.Inv) (hbad : ¬ s.StepOk .trigger)
    (hs : threadStep mtu s .trigger = some t) : ¬ t.Safe := by
  intro hsafe
  rw [SessionThreads.StepOk, not_or] at hbad
  rcases trigger_cases hs with ⟨hnone, -⟩ | ⟨-, rfl⟩
  · exact hbad.2 hnone
  · have hle := h.inFlight
    have hlen := h.wf.length_live
    obtain ⟨a, ha⟩ : ∃ a, a ∈ s.conn.live.take s.pc.inFlight :=
      List.exists_mem_of_length_pos (by rw [List.length_take]; omega)
    have honce : ((s.dispatched ++ s.conn.live).map Labelled.serial).Nodup := hsafe.once
    rw [List.map_append] at honce
    exact (List.nodup_append.1 honce).2.2 _ (List.mem_map_of_mem (h.passed a ha)) _
      (List.mem_map_of_mem (List.mem_of_mem_take ha)) rfl

theorem step (h : s.Inv) (e : ThreadEvent) (hok : s.StepOk e)
    (hs : threadStep mtu s e = some t) : t.Inv := by
  cases e with
  | grow realloc => exact h.grow_step hok hs
  | append nodePool n => exact h.append_step hs
  | size => exact h.size_step hs
  | test => exact h.test_step hs
  | compact nodePool => exact h.compact_step hs
  | trigger => exact h.trigger_step hok hs

theorem step_bad (h : s.Inv) (e : ThreadEvent) (hbad : ¬ s.StepOk e)
    (hs : threadStep mtu s e = some t) : ¬ t.Safe := by
  cases e with
  | grow realloc => exact h.grow_bad hbad hs
  | append nodePool n => exact absurd trivial hbad
  | size => exact absurd trivial hbad
  | test => exact absurd trivial hbad
  | compact nodePool => exact absurd trivial hbad
  | trigger => exact h.trigger_bad hbad hs

end SessionThreads.Inv

/-- **The two threads are safe exactly while no trigger finds a batch in flight.**  For every
interleaving of the worker's steps with triggers, no append is passed on twice, none is lost, and
`pool_count` stays between 0 and `pool_size` throughout the run, if and only if no trigger on a
linked session came between the worker's call of `snd_cb` and its compaction, and every growth got
its memory and fitted in 32 bits. -/
theorem sessionThreads_safe_iff (mtu : MtuProfile) (conn : SessionConnectionPool Labelled)
    (es : List ThreadEvent) :
    Always (threadStep mtu) SessionThreads.Safe (sessionThreads mtu conn) es ↔
      Guarded (threadStep mtu) SessionThreads.StepOk (sessionThreads mtu conn) es :=
  always_iff_guarded SessionThreads.Inv (fun _ h ↦ h.safe) (fun _ e _ h hok ↦ h.step e hok)
    (fun _ e _ h hbad ↦ h.step_bad e hbad) es (.init mtu conn)

/-! ## Six full nodes and a trigger -/

def fullNode : Node := { Node.zero .mtu1500 with valueSize := 1420 }

/-- A TCP session whose node is `fullNode`, linked to a connection. -/
def fullSession : SessionThreads :=
  sessionThreads .mtu1500
    { run := true
      port := 4000
      linkedPort := 4001
      poolSize := 0x400
      poolCount := 0
      pool := []
      cursor := some 0
      session := { ProtocolBaseCb.zero .mtu1500 with
        proto := .tcp, node := some 0, linked := some (.tcp 0) } }

/-- Six rounds of the worker; in the last one it passes on the batch. -/
def sixAppends : List ThreadEvent :=
  (List.replicate 6 [.grow none, .append (fun _ ↦ fullNode) fullNode, .size]).flatten

/-- The trigger that comes next passes on the same six nodes. -/
theorem sessionThreads_not_safe : ¬ Always (threadStep .mtu1500) SessionThreads.Safe fullSession
    (sixAppends ++ [.trigger]) := by
  intro hA
  have hrun : (run (threadStep .mtu1500) fullSession (sixAppends ++ [.trigger])).map
      (fun t ↦ t.dispatched.map Labelled.serial) =
        some [0, 1, 2, 3, 4, 5, 0, 1, 2, 3, 4, 5] := by decide +kernel
  obtain ⟨t, ht, hsent⟩ := Option.map_eq_some_iff.1 hrun
  have honce := (hA.of_run ht).once
  rw [hsent] at honce
  exact absurd honce (by decide)

/-! ## The steps and the function -/

/-- With no trigger in between, the worker's steps are `process_session_node`. -/
theorem run_processSessionNode (mtu : MtuProfile) (nodePool : ℕ → Node) (n : Node)
    {s : SessionThreads} (hpc : s.pc = .append) :
    let out := processSessionNode mtu Labelled.node nodePool s.conn ⟨n, s.appended⟩
    ∃ es, run (threadStep mtu) s es = some { s with
      conn := out.1
      pc := .top
      appended := s.appended + if s.conn.Accepts nodePool n then 1 else 0
      dispatched := s.dispatched ++ out.2 } := by
  intro out
  by_cases hacc : s.conn.Accepts nodePool n
  · cases hflush : (s.conn.append ⟨n, s.appended⟩).flushBatch mtu Labelled.node with
    | none =>
      refine ⟨[.append nodePool n, .size], ?_⟩
      simp [run, threadStep, out, processSessionNode, hpc, hacc, hflush]
    | some count =>
      by_cases hcount : count ≤ (s.conn.append ⟨n, s.appended⟩).poolCount
      · refine ⟨[.append nodePool n, .size, .test, .compact nodePool], ?_⟩
        simp [run, threadStep, out, processSessionNode, SessionConnectionPool.afterFlush, hpc, hacc,
          hflush, hcount, Nat.not_lt.2 hcount]
      · refine ⟨[.append nodePool n, .size, .test], ?_⟩
        simp [run, threadStep, out, processSessionNode, SessionConnectionPool.afterFlush, hpc, hacc,
          hflush, hcount]
  · refine ⟨[.append nodePool n], ?_⟩
    simp [run, threadStep, out, processSessionNode, hpc, hacc]

end DmmrOrbit
