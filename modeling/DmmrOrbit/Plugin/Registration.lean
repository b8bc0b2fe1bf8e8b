import DmmrOrbit.Growth
import DmmrOrbit.Plugin.Links
import DmmrOrbit.Scheduler.NullSession

/-!
# Registering a connection

A callback of the plugin registers its connection in three steps: it fills the entry, gives it to
`insert_session` and, if that returns 0, to `insert_scheduler`.  `TrunkCb.register` is the callback
with all three; what `get_current_node` returns is left open, and as it is, namely with a call that
never returns, `TrunkCb.register_call` says that these are the callbacks of the other modules.

Nothing that a step has done is undone when a later one fails.  Refused memory, `insert_session` has
put a null pointer over the entry's pool; without a thread it leaves the entry running with a pool.
`sched_insert` writes through what `get_scheduler_connection` returns, whatever that is.
`register_leavesTables_iff` says exactly which failures leave the tables as they were.
-/

set_option autoImplicit false

namespace DmmrOrbit

/-! ## The callbacks -/

/-- The tables of the sessions and of the scheduler.  To look back on, `pools` is how many pools
each entry has been given so far, so that a new one is told from the one before it. -/
structure SessionTables where
  process : Process
  slots : GrowArray 64 (SchedulerSlot RecnoIndex)
  pools : RecnoIndex → ℕ := fun _ ↦ 0

/-- What a registration meets.  `current` is what `get_current_node` returns, if it does, and
`deadline` that of the scheduler. -/
structure RegisterEnv where
  mtu : MtuProfile
  results : InsertResults
  current : Option (Option ℕ)
  realloc : Reallocated (SchedulerSlot RecnoIndex)
  deadline : UInt64
  socketCreateDispatcherFromUri : Process → Process

/-- How a registration stands: both inserts have returned 0; one has failed; `insert_session` has
not returned; or the callback has gone through a null pointer or past the end of a table. -/
inductive Registration
  | completed (s : SessionTables)
  | failed (s : SessionTables)
  | running (s : SessionTables)
  | fault

/-- `insert_session`, with what `get_current_node` returns. -/
def insertSessionAt (mtu : MtuProfile) (results : InsertResults) (current : Option (Option ℕ))
    (w : Process) (p : RecnoIndex) : Call ℤ :=
  let session := w.recno p
  if !w.circleBuffer then .returned eof w
  else if !results.calloc then .returned eof (w.setEntry p { session with pool := [] })
  else
    let session := { session with
      pool := List.replicate 0x400 (.zero mtu), poolSize := 0x400, poolCount := 0, run := true }
    match current with
    | none => .running (w.setEntry p session)
    | some cursor =>
      .returned results.pthreadCreate (w.setEntry p { session with cursor := cursor })

/-- As the source has it. -/
theorem insertSession_eq (mtu : MtuProfile) (results : InsertResults) (fuel : ℕ) (w : Process)
    (p : RecnoIndex) : insertSession mtu results fuel w p =
      insertSessionAt mtu results (getCurrentNode fuel) w p := rfl

/-- A write to an entry of the array. -/
def GrowArray.set {w : ℕ} {α : Type} (a : GrowArray w α) (i : ℕ) (x : α) : GrowArray w α :=
  { a with
    entries := a.entries.set i x
    entries_null := fun h ↦ (congrArg (List.set · i x) (a.entries_null h)).trans List.set_nil }

/-- `sched_insert`; `none` if it goes through a null pointer, that of the slot or that of the
pool. -/
def schedInsert (deadline : UInt64) (realloc : Reallocated (SchedulerSlot RecnoIndex)) (w : Process)
    (slots : GrowArray 64 (SchedulerSlot RecnoIndex)) (p : RecnoIndex) :
    Option (ℤ × GrowArray 64 (SchedulerSlot RecnoIndex)) :=
  match slots.getSchedulerConnection (fun q ↦ (w.recno q).run) realloc with
  | (.entry i, slots) =>
    match (w.recno p).pool with
    | [] => none
    | n :: _ => some (0, slots.set i (schedInsertSlot deadline p n))
  | (.null, _) => none
  | (.crash, _) => none

/-- The pools after `insert_session`: it comes to `calloc` if there is a ring, and puts a block that
it gets in the place of the entry's. -/
def SessionTables.poolsAfter (s : SessionTables) (results : InsertResults) (p : RecnoIndex) :
    RecnoIndex → ℕ :=
  if s.process.circleBuffer && results.calloc then Function.update s.pools p (s.pools p + 1)
  else s.pools

/-- The two inserts, as every callback has them. -/
def insertBoth (env : RegisterEnv) (s : SessionTables) (p : RecnoIndex) : Registration :=
  let pools := s.poolsAfter env.results p
  match insertSessionAt env.mtu env.results env.current s.process p with
  | .returned ret w =>
    if ret = 0 then
      match schedInsert env.deadline env.realloc w s.slots p with
      | some (ret, slots) =>
        if ret = 0 then .completed ⟨w, slots, pools⟩ else .failed ⟨w, slots, pools⟩
      | none => .fault
    else .failed ⟨w, s.slots, pools⟩
  | .running w => .running ⟨w, s.slots, pools⟩
  | .fault => .fault

/-- The body of a callback.  `link` is whether it assigns to `input->linked`. -/
def registerConnection (link : Bool) (proto : ProtoArr) (env : RegisterEnv) (s : SessionTables)
    (input : CbPtr) : Registration :=
  match s.process.cb input with
  | none => .fault
  | some u =>
    match u.node with
    | none => .fault
    | some k =>
      match getRecnoSlot (s.process.nodes k).port proto with
      | none => .fault
      | some p =>
        let w :=
          if link then s.process.setLinked input (.session (s.process.nodes k).port proto)
          else s.process
        insertBoth env { s with process := storeSession proto w p u input } p

/-- The dispatcher is asked for at the end of a registration that completes. -/
def Registration.andThen (f : Process → Process) : Registration → Registration
  | completed s => .completed { s with process := f s.process }
  | failed s => .failed s
  | running s => .running s
  | fault => .fault

/-- The callback for an event and a protocol. -/
def TrunkCb.register (cb : TrunkCb) (proto : ProtoArr) (env : RegisterEnv) (s : SessionTables)
    (input : CbPtr) : Registration :=
  match cb with
  | dispatch => registerConnection true proto env s input
  | connect => registerConnection true proto env s input
  | acception =>
    (registerConnection false proto env s input).andThen env.socketCreateDispatcherFromUri

/-- The callback's own end, without the scheduler. -/
def Registration.call : Registration → Call Unit
  | completed s => .returned () s.process
  | failed s => .returned () s.process
  | running s => .running s.process
  | fault => .fault

/-! ## The callbacks as they are -/

/-- If `get_current_node` does not return, `insert_session` fails, or does not return either. -/
theorem insertBoth_of_none (env : RegisterEnv) (s : SessionTables) (p : RecnoIndex)
    (h : env.current = none) :
    (∃ w, insertSessionAt env.mtu env.results env.current s.process p = .returned eof w ∧
        insertBoth env s p = .failed ⟨w, s.slots, s.poolsAfter env.results p⟩) ∨
      ∃ w, insertSessionAt env.mtu env.results env.current s.process p = .running w ∧
        insertBoth env s p = .running ⟨w, s.slots, s.poolsAfter env.results p⟩ := by
  have hcall : (∃ w, insertSessionAt env.mtu env.results env.current s.process p =
      .returned eof w) ∨
        ∃ w, insertSessionAt env.mtu env.results env.current s.process p = .running w := by
    rw [insertSessionAt, h]
    dsimp only
    split
    · exact .inl ⟨_, rfl⟩
    · split
      · exact .inl ⟨_, rfl⟩
      · exact .inr ⟨_, rfl⟩
  rcases hcall with ⟨w, hw⟩ | ⟨w, hw⟩
  · refine .inl ⟨w, hw, ?_⟩
    rw [insertBoth, hw]
    exact if_neg (by decide)
  · refine .inr ⟨w, hw, ?_⟩
    rw [insertBoth, hw]

/-- The registration for the answers that a callback gets. -/
def AcceptEnv.toRegisterEnv (env : AcceptEnv) (realloc : Reallocated (SchedulerSlot RecnoIndex))
    (deadline : UInt64) : RegisterEnv where
  mtu := env.mtu
  results := env.results
  current := getCurrentNode env.fuel
  realloc := realloc
  deadline := deadline
  socketCreateDispatcherFromUri := env.socketCreateDispatcherFromUri

/-- Behind the entry, a registration goes on as a callback does, whatever that makes of a 0 from
`insert_session`. -/
theorem registerConnection_call (link : Bool) (proto : ProtoArr) (env : AcceptEnv)
    (s : SessionTables) (realloc : Reallocated (SchedulerSlot RecnoIndex)) (deadline : UInt64)
    (input : CbPtr) (f : Process → Process) (onReturn : RecnoIndex → ℤ → Process → Call Unit)
    (heof : ∀ p w, onReturn p eof w = .returned () w) :
    ((registerConnection link proto (env.toRegisterEnv realloc deadline) s input).andThen f).call =
      match s.process.cb input with
      | none => .fault
      | some u =>
        match u.node with
        | none => .fault
        | some k =>
          match getRecnoSlot (s.process.nodes k).port proto with
          | none => .fault
          | some p =>
            let w :=
              if link then s.process.setLinked input (.session (s.process.nodes k).port proto)
              else s.process
            match insertSession env.mtu env.results env.fuel (storeSession proto w p u input) p with
            | .returned ret w => onReturn p ret w
            | .running w => .running w
            | .fault => .fault := by
  rw [registerConnection]
  cases s.process.cb input with
  | none => rfl
  | some u =>
    cases hk : u.node with
    | none => simp only [hk]; rfl
    | some k =>
      cases hp : getRecnoSlot (s.process.nodes k).port proto with
      | none => simp only [hk, hp]; rfl
      | some p =>
        simp only [hk, hp]
        generalize storeSession proto (if link then _ else s.process) p u input = w
        rcases insertBoth_of_none (env.toRegisterEnv realloc deadline) { s with process := w } p
          (getCurrentNode_eq_none env.fuel) with ⟨w', hw, hboth⟩ | ⟨w', hw, hboth⟩
        · have hcall : insertSession env.mtu env.results env.fuel w p = .returned eof w' := hw
          rw [hboth, hcall]
          exact (heof p w').symm
        · have hcall : insertSession env.mtu env.results env.fuel w p = .running w' := hw
          rw [hboth, hcall]
          rfl

/-- The registrations are the callbacks of the plugin. -/
theorem TrunkCb.register_call (cb : TrunkCb) (proto : ProtoArr) (env : AcceptEnv)
    (s : SessionTables) (realloc : Reallocated (SchedulerSlot RecnoIndex)) (deadline : UInt64)
    (input : CbPtr) :
    (cb.register proto (env.toRegisterEnv realloc deadline) s input).call =
      cb.call proto env s.process input := by
  have hid (r : Registration) : r.call = (r.andThen id).call := by cases r <;> rfl
  have hconnect : (registerConnection true proto (env.toRegisterEnv realloc deadline) s
      input).call = onConnectConnectionCb proto env s.process input := by
    rw [hid]
    exact registerConnection_call true proto env s realloc deadline input id
      (fun p ret w ↦
        if ret = 0 then .returned () (env.insertScheduler w p).2 else .returned () w)
      fun _ _ ↦ rfl
  cases cb with
  | dispatch => cases proto <;> exact hconnect
  | connect => cases proto <;> exact hconnect
  | acception =>
    have haccept := registerConnection_call false proto env s realloc deadline input
      env.socketCreateDispatcherFromUri
      (fun p ret w ↦
        if ret = 0 then
          if (env.insertScheduler w p).1 = 0 then
            .returned () (env.socketCreateDispatcherFromUri (env.insertScheduler w p).2)
          else .returned () (env.insertScheduler w p).2
        else .returned () w)
      fun _ _ ↦ rfl
    cases proto <;> exact haccept

/-! ## What is promised -/

/-- The entry is not running, owns no pool, and no slot of the scheduler refers to it. -/
structure Idle (p : RecnoIndex) (s : SessionTables) : Prop where
  run : (s.process.recno p).run = false
  pool : (s.process.recno p).pool = []
  slots : ∀ c ∈ s.slots.entries, c.sessionPtr ≠ some p

/-- In these three the entry is as it was.  Its pool is the same block, and there is in it what was
there. -/
structure AsBefore (p : RecnoIndex) (s s' : SessionTables) : Prop where
  run : (s'.process.recno p).run = (s.process.recno p).run
  pool : (s'.process.recno p).pool = (s.process.recno p).pool
  block : s'.pools p = s.pools p
  slots : ∀ c, c.sessionPtr = some p → (c ∈ s'.slots.entries ↔ c ∈ s.slots.entries)

/-- An entry that was idle is as it was exactly if it is idle and was given no pool. -/
theorem asBefore_iff_idle {p : RecnoIndex} {s s' : SessionTables} (h : Idle p s) :
    AsBefore p s s' ↔ Idle p s' ∧ s'.pools p = s.pools p := by
  constructor
  · intro hsame
    exact ⟨⟨hsame.run.trans h.run, hsame.pool.trans h.pool,
      fun c hc hp ↦ h.slots c ((hsame.slots c hp).1 hc) hp⟩, hsame.block⟩
  · rintro ⟨hidle, hblock⟩
    exact ⟨hidle.run.trans h.run.symm, hidle.pool.trans h.pool.symm, hblock,
      fun c hp ↦ iff_of_false (fun hc ↦ hidle.slots c hc hp) fun hc ↦ h.slots c hc hp⟩

/-- What is promised of a registration that began with the tables `s`: it meets no null pointer, and
if it fails, the entry is as it was. -/
structure LeavesTables (s : SessionTables) (entry : Option RecnoIndex) (r : Registration) :
    Prop where
  noFault : r ≠ .fault
  undone : ∀ p s', entry = some p → r = .failed s' → AsBefore p s s'

/-- The sessions that run once the entry does. -/
def SessionTables.runWith (s : SessionTables) (p q : RecnoIndex) : Bool :=
  decide (q = p) || (s.process.recno q).run

/-- The scheduler has a slot for the entry: its marks can be read, and if they are all taken and
there is no room, there is memory. -/
def SessionTables.HasSlot (s : SessionTables) (p : RecnoIndex)
    (realloc : Reallocated (SchedulerSlot RecnoIndex)) : Prop :=
  scanMarks (fun c ↦ some (c.free (s.runWith p))) s.slots.count 0 s.slots.entries ≠ .crash ∧
    (s.slots.Exhausted s.slots.count (fun c ↦ some (c.free (s.runWith p))) → realloc ≠ none)

/-- The answers that do the entry no harm.  There is no ring; or there is no memory for a pool and
none to lose; or there is memory, and then, if `get_current_node` returns, a thread and a slot. -/
def Harmless (env : RegisterEnv) (s : SessionTables) (p : RecnoIndex) : Prop :=
  s.process.circleBuffer = true →
    if env.results.calloc = true then
      ∀ cursor, env.current = some cursor →
        env.results.pthreadCreate = 0 ∧ s.HasSlot p env.realloc
    else (s.process.recno p).pool = []

/-! ## The two inserts -/

section

variable {env : RegisterEnv} {s : SessionTables} {p : RecnoIndex}

/-- `sched_insert` gets through if there is a slot. -/
theorem schedInsert_cases (deadline : UInt64)
    (realloc : Reallocated (SchedulerSlot RecnoIndex)) {w : Process}
    (slots : GrowArray 64 (SchedulerSlot RecnoIndex)) (hpool : (w.recno p).pool ≠ []) :
    (∃ slots', schedInsert deadline realloc w slots p = some (0, slots')) ∧
        (∃ i, (slots.getSchedulerConnection (fun q ↦ (w.recno q).run) realloc).1 = .entry i) ∨
      schedInsert deadline realloc w slots p = none ∧
        ¬ ∃ i, (slots.getSchedulerConnection (fun q ↦ (w.recno q).run) realloc).1 = .entry i := by
  obtain ⟨n, ns, hn⟩ := List.exists_cons_of_ne_nil hpool
  rw [schedInsert]
  cases slots.getSchedulerConnection (fun q ↦ (w.recno q).run) realloc with | mk r slots' =>
  cases r with
  | entry i => exact .inl ⟨⟨slots'.set i (schedInsertSlot deadline p n), by rw [hn]⟩, i, rfl⟩
  | null => exact .inr ⟨rfl, by simp⟩
  | crash => exact .inr ⟨rfl, by simp⟩

/-- The entry once `insert_session` has its pool. -/
def startedEntry (env : RegisterEnv) (conn : SessionConnectionPool Node) (cursor : Option ℕ) :
    SessionConnectionPool Node :=
  { conn with
    pool := List.replicate 0x400 (.zero env.mtu), poolSize := 0x400, poolCount := 0, run := true
    cursor := cursor }

theorem insertBoth_of_noRing (h : s.process.circleBuffer = false) :
    insertBoth env s p = .failed s := by
  have hcall : insertSessionAt env.mtu env.results env.current s.process p =
      .returned eof s.process := by
    rw [insertSessionAt]
    exact if_pos (by rw [h]; rfl)
  have hpools : s.poolsAfter env.results p = s.pools := if_neg (by simp [h])
  rw [insertBoth, hcall, hpools]
  exact if_neg (by decide)

theorem insertBoth_of_noMemory (hring : s.process.circleBuffer = true)
    (h : env.results.calloc = false) : insertBoth env s p =
      .failed ⟨s.process.setEntry p { s.process.recno p with pool := [] }, s.slots, s.pools⟩ := by
  have hcall : insertSessionAt env.mtu env.results env.current s.process p =
      .returned eof (s.process.setEntry p { s.process.recno p with pool := [] }) := by
    rw [insertSessionAt, if_neg (by simp [hring]), if_pos (by simp [h])]
  have hpools : s.poolsAfter env.results p = s.pools := if_neg (by simp [h])
  rw [insertBoth, hcall, hpools]
  exact if_neg (by decide)

theorem insertBoth_of_noNode (hring : s.process.circleBuffer = true)
    (h : env.results.calloc = true) (hcurrent : env.current = none) :
    ∃ s', insertBoth env s p = .running s' := by
  have hcall : ∃ w, insertSessionAt env.mtu env.results env.current s.process p = .running w := by
    rw [insertSessionAt, if_neg (by simp [hring]), if_neg (by simp [h]), hcurrent]
    exact ⟨_, rfl⟩
  obtain ⟨w, hw⟩ := hcall
  exact ⟨⟨w, s.slots, s.poolsAfter env.results p⟩, by rw [insertBoth, hw]⟩

/-- With all that it asks for, `insert_session` returns what `pthread_create` does. -/
theorem insertSessionAt_of_started {cursor : Option ℕ} (hring : s.process.circleBuffer = true)
    (h : env.results.calloc = true) (hcurrent : env.current = some cursor) :
    insertSessionAt env.mtu env.results env.current s.process p =
      .returned env.results.pthreadCreate
        (s.process.setEntry p (startedEntry env (s.process.recno p) cursor)) := by
  rw [insertSessionAt, if_neg (by simp [hring]), if_neg (by simp [h]), hcurrent]
  rfl

theorem insertBoth_of_noThread {cursor : Option ℕ} (hring : s.process.circleBuffer = true)
    (h : env.results.calloc = true) (hcurrent : env.current = some cursor)
    (hthread : env.results.pthreadCreate ≠ 0) :
    ∃ s', insertBoth env s p = .failed s' ∧ s'.pools p = s.pools p + 1 := by
  have hpools : s.poolsAfter env.results p = Function.update s.pools p (s.pools p + 1) :=
    if_pos (by rw [hring, h]; rfl)
  rw [insertBoth, insertSessionAt_of_started hring h hcurrent, hpools]
  exact ⟨_, if_neg hthread, Function.update_self _ _ _⟩

/-- The scheduler's slots are looked at with the entry running. -/
theorem setEntry_started_run (cursor : Option ℕ) :
    (fun q ↦ ((s.process.setEntry p (startedEntry env (s.process.recno p) cursor)).recno q).run) =
      s.runWith p := by
  funext q
  by_cases hq : q = p
  · rw [hq, s.process.setEntry_recno_self, SessionTables.runWith, decide_eq_true rfl]
    rfl
  · rw [(s.process.agreeExcept_setEntry p _).recno q hq]
    simp [SessionTables.runWith, hq]

/-- With a thread, it is the slot that decides. -/
theorem insertBoth_of_thread {cursor : Option ℕ} (hring : s.process.circleBuffer = true)
    (h : env.results.calloc = true) (hcurrent : env.current = some cursor)
    (hthread : env.results.pthreadCreate = 0) :
    (∃ s', insertBoth env s p = .completed s') ∧ s.HasSlot p env.realloc ∨
      insertBoth env s p = .fault ∧ ¬ s.HasSlot p env.realloc := by
  have hpool : ((s.process.setEntry p
      (startedEntry env (s.process.recno p) cursor)).recno p).pool ≠ [] := by
    rw [s.process.setEntry_recno_self]
    exact fun hnil ↦ absurd (congrArg List.length hnil) (by
      rw [startedEntry, List.length_replicate]
      exact (by decide : 0x400 ≠ 0))
  have hsched := schedInsert_cases env.deadline env.realloc s.slots hpool
  rw [setEntry_started_run] at hsched
  rw [insertBoth, insertSessionAt_of_started hring h hcurrent, SessionTables.HasSlot,
    ← GrowArray.getEntry_entry_iff]
  dsimp only
  rw [if_pos hthread]
  rcases hsched with ⟨⟨slots', hslots⟩, hentry⟩ | ⟨hnone, hentry⟩
  · rw [hslots]
    exact .inl ⟨⟨_, if_pos rfl⟩, hentry⟩
  · rw [hnone]
    exact .inr ⟨rfl, hentry⟩

theorem LeavesTables.of_failed {r : Registration} {s' : SessionTables} (h : r = .failed s') :
    LeavesTables s (some p) r ↔ AsBefore p s s' := by
  subst h
  constructor
  · intro h
    exact h.undone p s' rfl rfl
  · intro h
    refine ⟨by simp, fun q t hq ht ↦ ?_⟩
    obtain rfl := Option.some.inj hq
    obtain rfl := Registration.failed.inj ht
    exact h

/-- Losing its pool leaves an entry as it was if it had none. -/
theorem asBefore_noPool_iff :
    AsBefore p s ⟨s.process.setEntry p { s.process.recno p with pool := [] }, s.slots, s.pools⟩ ↔
      (s.process.recno p).pool = [] := by
  have hconn := s.process.setEntry_recno_self p { s.process.recno p with pool := [] }
  constructor
  · intro h
    have hpool := h.pool
    rw [hconn] at hpool
    exact hpool.symm
  · intro hpool
    exact ⟨by rw [hconn], by rw [hconn, hpool], rfl, fun _ _ ↦ Iff.rfl⟩

/-- **The two inserts** leave the tables as they were exactly with the answers that do no harm. -/
theorem insertBoth_leavesTables_iff :
    LeavesTables s (some p) (insertBoth env s p) ↔ Harmless env s p := by
  cases hring : s.process.circleBuffer with
  | false =>
    rw [LeavesTables.of_failed (insertBoth_of_noRing hring)]
    refine iff_of_true ⟨rfl, rfl, rfl, fun _ _ ↦ Iff.rfl⟩ fun h ↦ ?_
    exact absurd (hring.symm.trans h) (by simp)
  | true =>
    rw [Harmless, imp_iff_right hring]
    cases hcalloc : env.results.calloc with
    | false =>
      rw [if_neg (by simp), LeavesTables.of_failed (insertBoth_of_noMemory hring hcalloc)]
      exact asBefore_noPool_iff
    | true =>
      rw [if_pos rfl]
      cases hcurrent : env.current with
      | none =>
        obtain ⟨s', hs'⟩ := insertBoth_of_noNode (p := p) hring hcalloc hcurrent
        rw [hs']
        exact iff_of_true ⟨nofun, nofun⟩ nofun
      | some cursor =>
        have hall (Q : Prop) : (∀ c, some cursor = some c → Q) ↔ Q :=
          ⟨fun h ↦ h cursor rfl, fun h _ _ ↦ h⟩
        rw [hall]
        by_cases hthread : env.results.pthreadCreate = 0
        · rw [and_iff_right hthread]
          rcases insertBoth_of_thread (p := p) hring hcalloc hcurrent hthread with
            ⟨⟨s', hs'⟩, hslot⟩ | ⟨hfault, hslot⟩
          · rw [hs']
            exact iff_of_true ⟨nofun, nofun⟩ hslot
          · rw [hfault]
            exact iff_of_false (fun h ↦ h.noFault rfl) hslot
        · obtain ⟨s', hs', hblock⟩ := insertBoth_of_noThread (p := p) hring hcalloc hcurrent hthread
          rw [LeavesTables.of_failed hs']
          refine iff_of_false (fun h ↦ ?_) fun h ↦ hthread h.1
          exact absurd (hblock.symm.trans h.block) (Nat.succ_ne_self _)

end

/-! ## The callbacks -/

/-- The tables agree in what an insert reads and what it changes of an entry. -/
structure Process.SameOwners (w w' : Process) : Prop where
  circleBuffer : w'.circleBuffer = w.circleBuffer
  run : ∀ q, (w'.recno q).run = (w.recno q).run
  pool : ∀ q, (w'.recno q).pool = (w.recno q).pool

namespace Process.SameOwners

variable {w w' w'' : Process}

theorem trans (h : w.SameOwners w') (h' : w'.SameOwners w'') : w.SameOwners w'' :=
  ⟨h'.circleBuffer.trans h.circleBuffer, fun q ↦ (h'.run q).trans (h.run q),
    fun q ↦ (h'.pool q).trans (h.pool q)⟩

/-- An entry with another session, or other ports. -/
theorem setEntry {p : RecnoIndex} {conn : SessionConnectionPool Node}
    (hrun : conn.run = (w.recno p).run) (hpool : conn.pool = (w.recno p).pool) :
    w.SameOwners (w.setEntry p conn) := by
  refine ⟨rfl, fun q ↦ ?_, fun q ↦ ?_⟩
  · by_cases hq : q = p
    · rw [hq, w.setEntry_recno_self, hrun]
    · rw [(w.agreeExcept_setEntry p conn).recno q hq]
  · by_cases hq : q = p
    · rw [hq, w.setEntry_recno_self, hpool]
    · rw [(w.agreeExcept_setEntry p conn).recno q hq]

theorem setLinked (w : Process) (ptr link : CbPtr) : w.SameOwners (w.setLinked ptr link) := by
  cases ptr with
  | cap i => exact ⟨rfl, fun _ ↦ rfl, fun _ ↦ rfl⟩
  | tcp i => exact ⟨rfl, fun _ ↦ rfl, fun _ ↦ rfl⟩
  | session port proto =>
    rw [Process.setLinked]
    split
    · exact setEntry rfl rfl
    · exact ⟨rfl, fun _ ↦ rfl, fun _ ↦ rfl⟩

theorem linkSessionPorts (w : Process) (p : RecnoIndex) (u : ProtocolBaseCb) :
    w.SameOwners (DmmrOrbit.linkSessionPorts w p u) := by
  rw [DmmrOrbit.linkSessionPorts]
  split
  all_goals exact setEntry rfl rfl

theorem storeSession (proto : ProtoArr) (w : Process) (p : RecnoIndex) (u : ProtocolBaseCb)
    (input : CbPtr) : w.SameOwners (DmmrOrbit.storeSession proto w p u input) := by
  have hsession : w.SameOwners (w.setEntry p { w.recno p with
      session := { u with linked := some input, proto := proto.toProto } }) := setEntry rfl rfl
  exact hsession.trans (linkSessionPorts _ p _)

variable {env : RegisterEnv} {s : SessionTables} {p : RecnoIndex}

theorem harmless_iff (h : s.process.SameOwners w) :
    Harmless env { s with process := w } p ↔ Harmless env s p := by
  have hrun : SessionTables.runWith { s with process := w } p = s.runWith p := by
    funext q
    rw [SessionTables.runWith, SessionTables.runWith, h.run]
  simp only [Harmless, SessionTables.HasSlot, hrun, h.circleBuffer, h.pool]

theorem leavesTables_iff (h : s.process.SameOwners w) {r : Registration} :
    LeavesTables { s with process := w } (some p) r ↔ LeavesTables s (some p) r := by
  have hbefore (s' : SessionTables) : AsBefore p { s with process := w } s' ↔ AsBefore p s s' := by
    constructor
    · intro hb
      exact ⟨hb.run.trans (h.run p), hb.pool.trans (h.pool p), hb.block, hb.slots⟩
    · intro hb
      exact ⟨hb.run.trans (h.run p).symm, hb.pool.trans (h.pool p).symm, hb.block, hb.slots⟩
  constructor
  · intro hr
    refine ⟨hr.noFault, fun q s' hq hs' ↦ ?_⟩
    obtain rfl := Option.some.inj hq
    exact (hbefore s').1 (hr.undone p s' rfl hs')
  · intro hr
    refine ⟨hr.noFault, fun q s' hq hs' ↦ ?_⟩
    obtain rfl := Option.some.inj hq
    exact (hbefore s').2 (hr.undone p s' rfl hs')

end Process.SameOwners

variable {env : RegisterEnv} {s : SessionTables} {proto : ProtoArr} {input : CbPtr}

/-- The dispatcher comes after all this. -/
theorem LeavesTables.andThen_iff {entry : Option RecnoIndex} {r : Registration}
    {f : Process → Process} : LeavesTables s entry (r.andThen f) ↔ LeavesTables s entry r := by
  cases r with
  | completed s' => exact iff_of_true ⟨nofun, nofun⟩ ⟨nofun, nofun⟩
  | failed s' => exact Iff.rfl
  | running s' => exact Iff.rfl
  | fault => exact Iff.rfl

theorem registerConnection_leavesTables_iff (link : Bool) :
    LeavesTables s (s.process.entryOf proto input) (registerConnection link proto env s input) ↔
      ∃ p, s.process.entryOf proto input = some p ∧ Harmless env s p := by
  rw [registerConnection, Process.entryOf]
  cases s.process.cb input with
  | none => exact iff_of_false (fun h ↦ h.noFault rfl) (by simp)
  | some u =>
    rw [Option.bind_some]
    cases hk : u.node with
    | none => exact iff_of_false (fun h ↦ h.noFault (by simp only [hk])) (by simp)
    | some k =>
      rw [Option.bind_some]
      cases hp : getRecnoSlot (s.process.nodes k).port proto with
      | none => exact iff_of_false (fun h ↦ h.noFault (by simp only [hk, hp])) (by simp)
      | some p =>
        simp only [hk, hp, Option.some.injEq, exists_eq_left']
        have hlink : s.process.SameOwners (if link = true then
            s.process.setLinked input (.session (s.process.nodes k).port proto)
            else s.process) := by
          split
          · exact .setLinked _ _ _
          · exact ⟨rfl, fun _ ↦ rfl, fun _ ↦ rfl⟩
        have hstore := hlink.trans (.storeSession proto _ p u input)
        rw [← hstore.leavesTables_iff, insertBoth_leavesTables_iff, hstore.harmless_iff]

/-- **What a registration leaves of a failure.**  For each of the six callbacks, whatever the tables
and whatever the allocations and `pthread_create` answer: no null pointer is met and a registration
that fails leaves the entry as it was, if and only if the connection has an entry and the answers do
that entry no harm. -/
theorem register_leavesTables_iff (cb : TrunkCb) :
    LeavesTables s (s.process.entryOf proto input) (cb.register proto env s input) ↔
      ∃ p, s.process.entryOf proto input = some p ∧ Harmless env s p := by
  cases cb with
  | dispatch => exact registerConnection_leavesTables_iff true
  | connect => exact registerConnection_leavesTables_iff true
  | acception => exact LeavesTables.andThen_iff.trans (registerConnection_leavesTables_iff false)

/-! ## Two peers with one port -/

/-- As the callbacks are: `get_current_node` does not return. -/
def registerEnv (calloc : Bool) : RegisterEnv :=
  (acceptEnv calloc).toRegisterEnv none 0

/-- The callback for the first peer gets its pool and is then in `get_current_node`; that for the
second finds no memory, and takes the pool of the entry, which is running, away. -/
theorem register_loses_pool : ¬ ∀ (cb : TrunkCb) (proto : ProtoArr) (env : RegisterEnv)
    (s : SessionTables) (input : CbPtr),
      LeavesTables s (s.process.entryOf proto input) (cb.register proto env s input) := by
  intro h
  let p : RecnoIndex := (⟨40000, by decide⟩, .tcp)
  obtain ⟨s, -, hring, hentry, hpool⟩ : ∃ s,
      TrunkCb.acception.register .tcp (registerEnv true)
          { process := twoPeers, slots := .unallocated } (.tcp 0) =
        .running s ∧ s.process.circleBuffer = true ∧ s.process.entryOf .tcp (.tcp 1) = some p ∧
        (s.process.recno p).pool = List.replicate 0x400 (.zero .mtu1500) := ⟨_, rfl, rfl, rfl, rfl⟩
  have hleaves := LeavesTables.andThen_iff.1 (h .acception .tcp (registerEnv false) s (.tcp 1))
  obtain ⟨q, hq, hharmless⟩ := (registerConnection_leavesTables_iff false).1 hleaves
  obtain rfl := Option.some.inj (hentry.symm.trans hq)
  have hlost : (s.process.recno p).pool = [] := hharmless hring
  have hlength := congrArg List.length (hpool.symm.trans hlost)
  rw [List.length_replicate] at hlength
  exact absurd hlength (by decide)

end DmmrOrbit
