import Mathlib.Data.List.GetD
import Mathlib.Logic.Function.Basic
import DmmrOrbit.Lib.Transition
import DmmrOrbit.Scheduler.Dispatch
import DmmrOrbit.Session.SessionPool

/-!
# Slots without a session

`sched_delete` clears the slot of a session but leaves it in the table.  Its deadline is then 0, so
it is always due, and a reorder pass puts it at the front.  `sched_trigger_snd` tests the slot's
pointer to the session, but only after it has asked for `&(pool->session)` and had
`get_session_pointer` read it.

The state here is the table and the sessions, and whether a pass has gone through a null pointer.
Inserts, deletes, reorder passes and send passes come one at a time, in any order, with any changes
to the sessions in between.  `nullSession_safe_iff` says that no pass ever follows a null pointer if
and only if every send pass finds in front of each cleared slot one that is not due.
-/

set_option autoImplicit false

namespace DmmrOrbit

open Transition

/-! ## What a pass hands over -/

section

variable {σ ι : Type} {threshold : UInt64}
  {trigger : σ → List (SchedulerSlot ι) → ℕ → Option (σ × SchedulerSlot ι)}

/-- A slot after a pass is one there was before, or one that `trigger_send` has left. -/
theorem mem_of_checkAndSendFrom {P : SchedulerSlot ι → Prop}
    (htrigger : ∀ st slots i out, trigger st slots i = some out → P out.2) {left i : ℕ} {st : σ}
    {slots : List (SchedulerSlot ι)} {pass : SendPass σ ι}
    (h : checkAndSendFrom threshold trigger left i st slots = some pass)
    (hslots : ∀ c ∈ slots, P c) : pass.slots.length = slots.length ∧ ∀ c ∈ pass.slots, P c := by
  induction left generalizing i st slots pass with
  | zero =>
    obtain rfl := Option.some.inj h
    exact ⟨rfl, hslots⟩
  | succ left ih =>
    rw [checkAndSendFrom] at h
    split at h
    · obtain ⟨out, hout, hrest⟩ := Option.bind_eq_some_iff.1 h
      obtain ⟨rest, hpass, rfl⟩ := Option.map_eq_some_iff.1 hrest
      have hset : ∀ c ∈ slots.set i out.2, P c := fun c hc ↦
        (List.mem_or_eq_of_mem_set hc).elim (hslots c) fun heq ↦ heq ▸ htrigger _ _ _ _ hout
      obtain ⟨hlen, hmem⟩ := ih hpass hset
      exact ⟨hlen.trans List.length_set, hmem⟩
    · obtain rfl := Option.some.inj h
      exact ⟨rfl, hslots⟩

/-- If `trigger_send` does not come back exactly from the slots with a certain property, a pass does
not come back exactly when it gets to such a slot: when the slot and all before it are due. -/
theorem checkAndSendFrom_eq_none_iff (Bad : SchedulerSlot ι → Prop)
    (htrigger : ∀ st slots i, trigger st slots i = none ↔ Bad (slots.getD i .zero))
    {left i : ℕ} {st : σ} {slots : List (SchedulerSlot ι)} :
    checkAndSendFrom threshold trigger left i st slots = none ↔
      ∃ j, i ≤ j ∧ j < i + left ∧ Bad (slots.getD j .zero) ∧
        ∀ k, i ≤ k → k ≤ j → DueAt threshold slots k := by
  induction left generalizing i st slots with
  | zero =>
    rw [checkAndSendFrom]
    refine iff_of_false (by simp) ?_
    rintro ⟨j, hij, hj, -⟩
    omega
  | succ left ih =>
    rw [checkAndSendFrom]
    by_cases hdue : DueAt threshold slots i
    · rw [if_pos hdue]
      cases hout : trigger st slots i with
      | none =>
        rw [Option.bind_none]
        refine iff_of_true rfl ⟨i, Nat.le_refl i, by omega, (htrigger _ _ _).1 hout, ?_⟩
        intro k hik hki
        rwa [Nat.le_antisymm hki hik]
      | some out =>
        -- the slots further on are still what they were
        have hset : ∀ j, i + 1 ≤ j → (slots.set i out.2).getD j .zero = slots.getD j .zero := by
          intro j hj
          rw [List.getD_eq_getElem?_getD, List.getD_eq_getElem?_getD,
            List.getElem?_set_ne (by omega)]
        have hgood : ¬ Bad (slots.getD i .zero) := fun hbad ↦ by
          rw [(htrigger st slots i).2 hbad] at hout
          exact absurd hout (by simp)
        rw [Option.bind_some, Option.map_eq_none_iff, ih]
        constructor
        · rintro ⟨j, hij, hj, hbad, hall⟩
          rw [hset j hij] at hbad
          refine ⟨j, by omega, by omega, hbad, fun k hik hkj ↦ ?_⟩
          rcases Nat.lt_or_eq_of_le hik with hlt | rfl
          · have hk := hall k hlt hkj
            rwa [DueAt, hset k hlt] at hk
          · exact hdue
        · rintro ⟨j, hij, hj, hbad, hall⟩
          have hne : i ≠ j := fun heq ↦ hgood (heq ▸ hbad)
          refine ⟨j, by omega, by omega, by rwa [hset j (by omega)], fun k hik hkj ↦ ?_⟩
          rw [DueAt, hset k hik]
          exact hall k (by omega) hkj
    · rw [if_neg hdue]
      refine iff_of_false (by simp) ?_
      rintro ⟨j, hij, -, -, hall⟩
      exact hdue (hall i (Nat.le_refl i) hij)

end

/-! ## The table and the sessions -/

/-- The array with its two counters, of which the size is the length. -/
structure SlotTable (ι : Type) where
  slots : List (SchedulerSlot ι)
  count : ℕ

/-- The slot of `sched_insert`, with what it copies from the first node of the session's pool. -/
def schedInsertSlot {ι : Type} (deadline : UInt64) (p : ι) (n : Node) : SchedulerSlot ι where
  lastActiveTimeUs := n.arrival
  realtimeDeadlineUs := n.deadline
  deadlineUs := deadline
  sessionPtr := some p

section

variable {ι : Type}

namespace SlotTable

/-- The slots in use. -/
def live (s : SlotTable ι) : List (SchedulerSlot ι) := s.slots.take s.count

/-- The locked section of `get_scheduler_connection`, with a `realloc` that succeeds: the index of
the slot, and the table. -/
def getSchedulerConnection (run : ι → Bool) (fresh : ℕ → SchedulerSlot ι) (s : SlotTable ι) :
    ℕ × SlotTable ι :=
  match s.live.findIdx? (fun c ↦ c.free run) with
  | some i => (i, s)
  | none =>
    let slots := if s.count ≥ s.slots.length then
      s.slots ++ (List.range s.slots.length).map fresh else s.slots
    (s.count, ⟨slots, s.count + 1⟩)

/-- `sched_start`. -/
def schedStart : SlotTable ι := ⟨List.replicate 0x400 .zero, 0⟩

end SlotTable

/-- It is the function of `Scheduler`, which also says where the array lies. -/
theorem Scheduler.getSchedulerConnection_eq (s : Scheduler ι) (base : ℕ)
    (fresh : ℕ → SchedulerSlot ι) :
    let found := SlotTable.getSchedulerConnection s.run fresh ⟨s.slots, s.count⟩
    (s.getSchedulerConnection base fresh).1 =
        (s.getSchedulerConnection base fresh).2.base + found.1 ∧
      (s.getSchedulerConnection base fresh).2.slots = found.2.slots ∧
      (s.getSchedulerConnection base fresh).2.count = found.2.count := by
  intro found
  have hlive : SlotTable.live ⟨s.slots, s.count⟩ = s.live := rfl
  simp only [found, Scheduler.getSchedulerConnection, SlotTable.getSchedulerConnection, hlive]
  cases s.live.findIdx? fun c ↦ c.free s.run with
  | some i => exact ⟨rfl, rfl, rfl⟩
  | none =>
    refine ⟨rfl, ?_, rfl⟩
    show (s.grown base fresh).slots = _
    rw [Scheduler.grown]
    split <;> rfl

/-- The scheduler and its sessions, and whether a pass has followed a null pointer. -/
structure SendThread (ι : Type) where
  table : SlotTable ι
  sessions : ι → SessionConnectionPool Node
  nullFollowed : Bool

/-- What happens to the table and to the sessions. -/
inductive SendThreadEvent (ι : Type)
  /-- `sched_insert` of a session that has a pool, with the new memory that `realloc` gives. -/
  | insert (p : ι) (fresh : ℕ → SchedulerSlot ι)
  | delete (p : ι)
  /-- `delete_session`. -/
  | deleteSession (p : ι)
  /-- Whatever else is done to a session. -/
  | session (p : ι) (conn : SessionConnectionPool Node)
  | reorder
  /-- A pass of `_check_and_send_thread`. -/
  | check (threshold : UInt64)

variable [DecidableEq ι]

/-- `sched_trigger_snd` on the slot at a position.  It reads the session before it tests the pointer
to it. -/
def triggerSend (zero : Node) (sessions : ι → SessionConnectionPool Node)
    (slots : List (SchedulerSlot ι)) (i : ℕ) :
    Option ((ι → SessionConnectionPool Node) × SchedulerSlot ι) :=
  let conn := slots.getD i .zero
  conn.sessionPtr.map fun p ↦
    let out := schedTriggerSnd zero conn.toSchedulerConnection (sessions p)
    (Function.update sessions p out.2.1, { out.1 with sessionPtr := some p })

def sendThreadStep (mtu : MtuProfile) (deadline : UInt64) (s : SendThread ι) :
    SendThreadEvent ι → Option (SendThread ι)
  | .insert p fresh =>
    match (s.sessions p).pool with
    | [] => none
    | n :: _ =>
      let (i, t) := s.table.getSchedulerConnection (fun q ↦ (s.sessions q).run) fresh
      some { s with table := { t with slots := t.slots.set i (schedInsertSlot deadline p n) } }
  | .delete p =>
    some { s with table.slots := overlay (clearFirst p s.table.live) s.table.slots }
  | .deleteSession p => some { s with sessions := Function.update s.sessions p (.zero mtu) }
  | .session p conn => some { s with sessions := Function.update s.sessions p conn }
  | .reorder => (reorderThreadPass s.table.live).map fun sorted ↦
    { s with table.slots := overlay sorted s.table.slots }
  | .check threshold =>
    match checkAndSendPass threshold (triggerSend (.zero mtu)) s.sessions s.table.live with
    | none => some { s with nullFollowed := true }
    | some pass => some { s with
        table.slots := overlay pass.slots s.table.slots
        sessions := pass.state }

/-- No pass has followed a null pointer. -/
def SendThread.Safe (s : SendThread ι) : Prop := s.nullFollowed = false

/-- The passes that follow none: before each slot without a session there is one that is not due. -/
def SendThread.StepOk (s : SendThread ι) : SendThreadEvent ι → Prop
  | .check threshold => ∀ j, j < s.table.live.length →
      (s.table.live.getD j .zero).sessionPtr = none → ∃ k, k < j ∧ ¬ DueAt threshold s.table.live k
  | _ => True

/-! ## One step -/

/-- A slot without a session has the deadline 0. -/
def SchedulerSlot.ClearedDue (c : SchedulerSlot ι) : Prop :=
  c.sessionPtr = none → c.realtimeDeadlineUs = 0

/-- The counters fit the array. -/
structure SlotTable.Wf (s : SlotTable ι) : Prop where
  count : s.count ≤ s.slots.length
  pos : 0 < s.slots.length

namespace SlotTable.Wf

omit [DecidableEq ι]

variable {s : SlotTable ι}

theorem length_live (h : s.Wf) : s.live.length = s.count := by
  rw [live, List.length_take, Nat.min_eq_left h.count]

/-- An insert leaves the slots as they were, except for the one it fills. -/
theorem insert (h : s.Wf) (run : ι → Bool) (fresh : ℕ → SchedulerSlot ι) (c : SchedulerSlot ι) :
    let found := s.getSchedulerConnection run fresh
    ({ found.2 with slots := found.2.slots.set found.1 c } : SlotTable ι).Wf ∧
      ∀ x ∈ ({ found.2 with slots := found.2.slots.set found.1 c } : SlotTable ι).live,
        x ∈ s.live ∨ x = c := by
  intro found
  have hcount := h.count
  have hpos := h.pos
  simp only [found, getSchedulerConnection]
  cases s.live.findIdx? fun c ↦ c.free run with
  | some i =>
    refine ⟨⟨by rw [List.length_set]; exact hcount, by rw [List.length_set]; exact hpos⟩, ?_⟩
    intro x hx
    rw [live, List.take_set] at hx
    exact List.mem_or_eq_of_mem_set hx
  | none =>
    dsimp only
    generalize hslots : (if s.count ≥ s.slots.length then
      s.slots ++ (List.range s.slots.length).map fresh else s.slots) = slots
    have hlen : s.count < slots.length := by
      rw [← hslots]
      split
      · rw [List.length_append, List.length_map, List.length_range]; omega
      · omega
    have htake : slots.take s.count = s.live := by
      rw [← hslots, live]
      split
      · rw [List.take_append_of_le_length hcount]
      · rfl
    refine ⟨⟨by rw [List.length_set]; exact hlen, by rw [List.length_set]; omega⟩, ?_⟩
    intro x hx
    rw [live, List.take_add_one, List.take_set_of_le (Nat.le_refl _), htake,
      List.getElem?_set_self hlen, Option.toList_some, List.mem_append, List.mem_singleton] at hx
    exact hx

/-- The table with other slots in use. -/
theorem overlay (h : s.Wf) {new : List (SchedulerSlot ι)} (hnew : new.length = s.live.length) :
    ({ s with slots := DmmrOrbit.overlay new s.slots } : SlotTable ι).Wf ∧
      ({ s with slots := DmmrOrbit.overlay new s.slots } : SlotTable ι).live = new := by
  have hlen : new.length = s.count := hnew.trans h.length_live
  have hcount := h.count
  have hlength : (DmmrOrbit.overlay new s.slots).length = s.slots.length :=
    length_overlay (by omega)
  exact ⟨⟨hlength ▸ hcount, hlength ▸ h.pos⟩, take_overlay_of_length hlen⟩

end SlotTable.Wf

theorem mem_clearFirst {p : ι} {slots : List (SchedulerSlot ι)} {c : SchedulerSlot ι}
    (hc : c ∈ clearFirst p slots) : c ∈ slots ∨ c = .zero := by
  induction slots with
  | nil => exact .inl hc
  | cons x slots ih =>
    rw [clearFirst] at hc
    split at hc
    · exact (List.mem_cons.1 hc).elim .inr fun h ↦ .inl (.tail _ h)
    · rcases List.mem_cons.1 hc with rfl | h
      · exact .inl (.head _)
      · exact (ih h).imp_left (.tail _)

/-- `sched_trigger_snd` does not come back from a slot without a session. -/
theorem triggerSend_eq_none (zero : Node) (sessions : ι → SessionConnectionPool Node)
    (slots : List (SchedulerSlot ι)) (i : ℕ) :
    triggerSend zero sessions slots i = none ↔ (slots.getD i .zero).sessionPtr = none :=
  Option.map_eq_none_iff

theorem triggerSend_clearedDue {zero : Node} {sessions : ι → SessionConnectionPool Node}
    {slots : List (SchedulerSlot ι)} {i : ℕ}
    {out : (ι → SessionConnectionPool Node) × SchedulerSlot ι}
    (h : triggerSend zero sessions slots i = some out) : out.2.ClearedDue := by
  obtain ⟨p, -, rfl⟩ := Option.map_eq_some_iff.1 h
  exact fun hnone ↦ absurd hnone (by simp)

namespace SendThread

/-- What is kept. -/
structure Inv (s : SendThread ι) : Prop where
  wf : s.table.Wf
  cleared : ∀ c ∈ s.table.live, c.ClearedDue
  safe : s.Safe

variable {mtu : MtuProfile} {deadline : UInt64} {s t : SendThread ι}

omit [DecidableEq ι] in
theorem Inv.schedStart (sessions : ι → SessionConnectionPool Node) :
    (⟨.schedStart, sessions, false⟩ : SendThread ι).Inv where
  wf := ⟨Nat.zero_le _, by rw [SlotTable.schedStart, List.length_replicate]; decide⟩
  cleared c hc := absurd (show c ∈ ([] : List (SchedulerSlot ι)) from hc) List.not_mem_nil
  safe := rfl

/-- Under the invariant the due slot in front of which all others are due is no obstacle of its
own. -/
theorem Inv.check_eq_none_iff (h : s.Inv) (zero : Node) (threshold : UInt64) :
    checkAndSendPass threshold (triggerSend zero) s.sessions s.table.live = none ↔
      ¬ s.StepOk (.check threshold) := by
  rw [checkAndSendPass,
    checkAndSendFrom_eq_none_iff (fun c ↦ c.sessionPtr = none) (triggerSend_eq_none zero), StepOk]
  constructor
  · rintro ⟨j, -, hj, hnull, hall⟩ hok
    obtain ⟨k, hk, hdue⟩ := hok j (by omega) hnull
    exact hdue (hall k (Nat.zero_le k) hk.le)
  · intro hbad
    push Not at hbad
    obtain ⟨j, hj, hnull, hall⟩ := hbad
    refine ⟨j, Nat.zero_le j, by omega, hnull, fun k _ hk ↦ ?_⟩
    rcases Nat.lt_or_eq_of_le hk with hlt | rfl
    · exact hall k hlt
    · have hcleared : s.table.live[k].ClearedDue := h.cleared _ (List.getElem_mem hj)
      rw [List.getD_eq_getElem _ _ hj] at hnull
      rw [DueAt, List.getD_eq_getElem _ _ hj, hcleared hnull]
      exact UInt64.zero_le

omit [DecidableEq ι] in
/-- A step that puts other slots into use, each of them fit. -/
theorem Inv.of_slots (h : s.Inv) {new : List (SchedulerSlot ι)}
    (hlen : new.length = s.table.live.length) (hnew : ∀ c ∈ new, c.ClearedDue)
    (sessions : ι → SessionConnectionPool Node) :
    ({ s with
        table.slots := overlay new s.table.slots
        sessions := sessions } : SendThread ι).Inv := by
  obtain ⟨hwf, hlive⟩ := h.wf.overlay hlen
  exact ⟨hwf, fun c hc ↦ hnew c (hlive ▸ hc), h.safe⟩

theorem Inv.insert_step (h : s.Inv) {p : ι} {fresh : ℕ → SchedulerSlot ι}
    (hs : sendThreadStep mtu deadline s (.insert p fresh) = some t) : t.Inv := by
  rw [sendThreadStep] at hs
  split at hs
  · exact absurd hs (by simp)
  · next n _ _ =>
    obtain rfl := Option.some.inj hs
    obtain ⟨hwf, hmem⟩ := h.wf.insert (fun q ↦ (s.sessions q).run) fresh
      (schedInsertSlot deadline p n)
    refine ⟨hwf, fun c hc ↦ (hmem c hc).elim (h.cleared c) ?_, h.safe⟩
    rintro rfl hnone
    exact absurd hnone (by simp [schedInsertSlot])

theorem Inv.delete_step (h : s.Inv) {p : ι}
    (hs : sendThreadStep mtu deadline s (.delete p) = some t) : t.Inv := by
  obtain rfl := Option.some.inj hs
  refine h.of_slots (length_clearFirst p _) (fun c hc ↦ ?_) s.sessions
  rcases mem_clearFirst hc with hmem | rfl
  · exact h.cleared c hmem
  · exact fun _ ↦ rfl

theorem Inv.reorder_step (h : s.Inv) (hs : sendThreadStep mtu deadline s .reorder = some t) :
    t.Inv := by
  obtain ⟨sorted, hsorted, rfl⟩ := Option.map_eq_some_iff.1 hs
  have hperm := reorderPass_perm s.table.live
  rw [← eq_reorderPass_of_some hsorted] at hperm
  exact h.of_slots hperm.length_eq (fun c hc ↦ h.cleared c (hperm.mem_iff.1 hc)) s.sessions

theorem Inv.check_step (h : s.Inv) {threshold : UInt64} (hok : s.StepOk (.check threshold))
    (hs : sendThreadStep mtu deadline s (.check threshold) = some t) : t.Inv := by
  rw [sendThreadStep] at hs
  cases hpass : checkAndSendPass threshold (triggerSend (.zero mtu)) s.sessions s.table.live with
  | none => exact absurd hok ((h.check_eq_none_iff _ _).1 hpass)
  | some pass =>
    rw [hpass] at hs
    obtain rfl := Option.some.inj hs
    obtain ⟨hlen, hmem⟩ := mem_of_checkAndSendFrom
      (fun _ _ _ _ hout ↦ triggerSend_clearedDue hout) hpass h.cleared
    exact h.of_slots hlen hmem pass.state

theorem Inv.step (h : s.Inv) (e : SendThreadEvent ι) (hok : s.StepOk e)
    (hs : sendThreadStep mtu deadline s e = some t) : t.Inv := by
  cases e with
  | insert p fresh => exact h.insert_step hs
  | delete p => exact h.delete_step hs
  | deleteSession p =>
    obtain rfl := Option.some.inj hs
    exact ⟨h.wf, h.cleared, h.safe⟩
  | session p conn =>
    obtain rfl := Option.some.inj hs
    exact ⟨h.wf, h.cleared, h.safe⟩
  | reorder => exact h.reorder_step hs
  | check threshold => exact h.check_step hok hs

theorem Inv.step_bad (h : s.Inv) (e : SendThreadEvent ι) (hbad : ¬ s.StepOk e)
    (hs : sendThreadStep mtu deadline s e = some t) : ¬ t.Safe := by
  cases e with
  | check threshold =>
    rw [sendThreadStep, (h.check_eq_none_iff _ _).2 hbad] at hs
    obtain rfl := Option.some.inj hs
    exact Bool.noConfusion
  | _ => exact absurd trivial hbad

end SendThread

/-- **No pass follows a null session pointer exactly when it finds a slot that is not due in front
of each cleared one.**  From the table of `sched_start` and any sessions, over every order of
inserts, deletes, changes of the sessions, reorder passes and send passes. -/
theorem nullSession_safe_iff (mtu : MtuProfile) (deadline : UInt64)
    (sessions : ι → SessionConnectionPool Node) (es : List (SendThreadEvent ι)) :
    Always (sendThreadStep mtu deadline) SendThread.Safe ⟨.schedStart, sessions, false⟩ es ↔
      Guarded (sendThreadStep mtu deadline) SendThread.StepOk ⟨.schedStart, sessions, false⟩ es :=
  always_iff_guarded SendThread.Inv (fun _ h ↦ h.safe) (fun _ e _ h hok ↦ h.step e hok)
    (fun _ e _ h hbad ↦ h.step_bad e hbad) es (SendThread.Inv.schedStart sessions)

end

/-! ## A session that comes and goes -/

/-- A running session with one node in its pool. -/
def oneNodeSession : SessionConnectionPool Node :=
  { (SessionConnectionPool.zero .mtu1500 : SessionConnectionPool Node) with
    run := true
    poolSize := 1
    pool := [.zero .mtu1500] }

/-- The session is inserted and deleted, and the next pass follows the pointer it has left. -/
theorem nullSession_not_safe :
    ¬ Always (sendThreadStep .mtu1500 0) SendThread.Safe
      ⟨.schedStart, fun _ : Unit ↦ oneNodeSession, false⟩
      [.insert () fun _ ↦ .zero, .delete (), .check 0] := by
  intro hA
  have hlast : (run (sendThreadStep .mtu1500 0)
      ⟨.schedStart, fun _ : Unit ↦ oneNodeSession, false⟩
      [.insert () fun _ ↦ .zero, .delete (), .check 0]).map SendThread.nullFollowed =
        some true := by decide +kernel
  obtain ⟨t, ht, hnull⟩ := Option.map_eq_some_iff.1 hlast
  exact absurd (hA.of_run ht) (by simp [SendThread.Safe, hnull])

end DmmrOrbit
