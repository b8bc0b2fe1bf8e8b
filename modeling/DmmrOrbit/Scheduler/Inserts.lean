import DmmrOrbit.Scheduler.Dispatch

/-!
# Inserts in progress

An insert of the scheduler chooses its slot in one step and fills it in another, and other threads
may come in between.  What the slots promise is `Safe`: every session inserted, alive and not
deleted is in exactly one slot, and no live session's slot was overwritten.

`scheduler_safe` says what order of the steps keeps it.  As long as a slot is chosen and not filled
yet, no other insert is begun unless a slot before it has become free, a reorder pass leaves it
where it is, and a session that it still refers to is not started again; a session is inserted only
when no slot refers to it; and a slot that comes into use from new memory does not point to a live
session.  Growth needs no condition of its own: while a slot waits to be filled there is a free one.
-/

set_option autoImplicit false

namespace DmmrOrbit

open Transition BinaryInsertion

/-! ## What the scheduler promises -/

section

variable {ι : Type} [DecidableEq ι]

namespace Scheduler

/-- The slots in use that refer to the session. -/
def refs (s : Scheduler ι) (p : ι) : ℕ := s.live.countP fun c ↦ c.sessionPtr = some p

/-- Every session that is inserted, not deleted, and live has exactly one slot, and no fill has
overwritten the slot of another live session. -/
structure Safe (s : Scheduler ι) : Prop where
  referenced : ∀ p, s.insertion p = .inserted → s.run p = true → s.refs p = 1
  kept : s.clobbered = false

/-- The slot that comes into use when none of those in use is free. -/
def nextSlot (s : Scheduler ι) (fresh : ℕ → SchedulerSlot ι) : SchedulerSlot ι :=
  s.slots.getD s.count (fresh 0)

/-- A reorder pass moves as many slots from before the `i`-th to behind it as the other way: as many
of those before it are due later as there are behind it that are due earlier. -/
def Stays (slots : List (SchedulerSlot ι)) (i : ℕ) : Prop :=
  ∀ c ∈ slots[i]?, (slots.take i).countP (fun x ↦ c.deadline < x.deadline) =
    (slots.drop (i + 1)).countP fun x ↦ x.deadline < c.deadline

/-- The orders of the steps that keep the promise.

* An insert is begun when no slot refers to its session, and each slot that another insert has
  chosen and not filled yet has a free slot before it.  If no slot in use is free, the next one does
  not point to a live session.
* A reorder pass leaves the slots that are chosen and not filled yet where they are.
* A session is not started as long as such a slot refers to it. -/
def StepOk (s : Scheduler ι) : SchedulerEvent ι → Prop
  | .choose p _ fresh =>
    (∀ c ∈ s.live, c.sessionPtr ≠ some p) ∧
      (∀ q, ∀ a ∈ (s.insertion q).address, ∃ c ∈ s.live.take (a - s.base), c.free s.run = true) ∧
      ((∀ c ∈ s.live, c.free s.run = false) → (s.nextSlot fresh).free s.run = true)
  | .fill _ _ => True
  | .reorder => ∀ q, ∀ a ∈ (s.insertion q).address, Stays s.live (a - s.base)
  | .delete _ => True
  | .start p => ∀ q, ∀ a ∈ (s.insertion q).address, ∀ c ∈ s.live[a - s.base]?,
      c.sessionPtr ≠ some p
  | .stop _ => True

/-! ## The invariant -/

/-- What is kept: the promise, the bounds of the table, and three things about the inserts that are
in progress: their slots are in the table and free, no two have the same, and no slot refers to
their sessions. -/
structure Inv (s : Scheduler ι) : Prop where
  safe : s.Safe
  count : s.count ≤ s.slots.length
  pos : 0 < s.slots.length
  awaits : ∀ p, ∀ a ∈ (s.insertion p).address,
    s.base ≤ a ∧ ∃ c, s.live[a - s.base]? = some c ∧ c.free s.run = true
  alone : ∀ p q, ∀ a ∈ (s.insertion p).address, a ∈ (s.insertion q).address → p = q
  absent : ∀ p, ∀ a ∈ (s.insertion p).address, s.refs p = 0

theorem Inv.schedStart (base : ℕ) (run : ι → Bool) : (schedStart base run).Inv := by
  have hnone {p : ι} {a : ℕ} {q : Prop}
      (ha : a ∈ ((Scheduler.schedStart base run).insertion p).address) : q :=
    absurd (show none = some a from ha) (by simp)
  refine ⟨⟨fun p hp ↦ absurd (show Insertion.out = .inserted from hp) (by simp), rfl⟩,
    Nat.zero_le _, ?_, fun _ _ ha ↦ hnone ha, fun _ _ _ ha ↦ hnone ha, fun _ _ ha ↦ hnone ha⟩
  rw [Scheduler.schedStart, List.length_replicate]
  decide

variable {s t : Scheduler ι}

theorem Inv.length_live (h : s.Inv) : s.live.length = s.count := by
  rw [live, List.length_take, Nat.min_eq_left h.count]

/-- The slot that comes into use stands behind the ones there were. -/
theorem Inv.live_grown (h : s.Inv) (base : ℕ) (fresh : ℕ → SchedulerSlot ι) :
    ({ s.grown base fresh with count := s.count + 1 } : Scheduler ι).live =
      s.live ++ [s.nextSlot fresh] := by
  rw [live, live, nextSlot]
  rcases Nat.lt_or_eq_of_le h.count with hlt | heq
  · have hgrown : s.grown base fresh = s := by rw [grown, if_neg (by omega)]
    rw [hgrown, List.take_add_one, List.getElem?_eq_getElem hlt, List.getD_eq_getElem _ _ hlt]
    rfl
  · have hpos := h.pos
    have hgrown : (s.grown base fresh).slots =
        s.slots ++ (List.range s.slots.length).map fresh := by
      rw [grown, if_pos (by omega)]
    have hnew : ((List.range s.slots.length).map fresh).take 1 = [fresh 0] := by
      obtain ⟨n, hn⟩ := Nat.exists_eq_succ_of_ne_zero (Nat.ne_of_gt hpos)
      rw [hn, List.range_succ_eq_map]
      rfl
    simp only [hgrown]
    rw [heq, List.take_length, List.take_length_add_append, hnew,
      List.getD_eq_default _ _ (Nat.le_refl _)]

theorem Inv.count_grown (h : s.Inv) (base : ℕ) (fresh : ℕ → SchedulerSlot ι) :
    s.count + 1 ≤ (s.grown base fresh).slots.length ∧
      0 < (s.grown base fresh).slots.length := by
  have hcount := h.count
  have hpos := h.pos
  rw [grown]
  split
  · simp only [List.length_append, List.length_map, List.length_range]
    omega
  · omega

omit [DecidableEq ι] in
theorem free_iff {c : SchedulerSlot ι} {run : ι → Bool} :
    c.free run = true ↔ ∀ q, c.sessionPtr = some q → run q = false := by
  rw [SchedulerSlot.free]
  cases c.sessionPtr <;> simp

omit [DecidableEq ι] in
/-- A free slot is not that of a live session. -/
theorem sessionPtr_ne_of_free {c : SchedulerSlot ι} {run : ι → Bool} {q : ι}
    (hfree : c.free run = true) (hq : run q = true) : c.sessionPtr ≠ some q := fun hptr ↦
  absurd (hq.symm.trans (free_iff.1 hfree q hptr)) (by simp)

/-! ## An insert is begun -/

/-- What the first half of an insert does: it chooses the first free slot, or one more comes into
use. -/
theorem Inv.choose_cases (h : s.Inv) {p : ι} {base : ℕ} {fresh : ℕ → SchedulerSlot ι}
    (hs : schedulerStep s (.choose p base fresh) = some t) :
    ∃ i, t.insertion = Function.update s.insertion p (.pending (t.base + i) false) ∧
      s.run p = true ∧ t.run = s.run ∧ t.clobbered = s.clobbered ∧
      t.count ≤ t.slots.length ∧ 0 < t.slots.length ∧
      ((∃ c, s.live[i]? = some c ∧ c.free s.run = true ∧
          (∀ x ∈ s.live.take i, x.free s.run = false) ∧ t.live = s.live ∧ t.base = s.base) ∨
        (∀ c ∈ s.live, c.free s.run = false) ∧ i = s.live.length ∧
          t.live = s.live ++ [s.nextSlot fresh]) := by
  rw [schedulerStep, Option.ite_none_right_eq_some] at hs
  obtain ⟨⟨hrun, -⟩, hs⟩ := hs
  rw [getSchedulerConnection] at hs
  cases hfind : s.live.findIdx? (fun c ↦ c.free s.run) with
  | some i =>
    rw [hfind] at hs
    obtain rfl := Option.some.inj hs
    obtain ⟨hi, hfree, hbefore⟩ := List.findIdx?_eq_some_iff_getElem.1 hfind
    refine ⟨i, rfl, hrun, rfl, rfl, h.count, h.pos,
      .inl ⟨s.live[i], List.getElem?_eq_getElem hi, hfree, fun x hx ↦ ?_, rfl, rfl⟩⟩
    obtain ⟨j, hj, rfl⟩ := List.mem_take_iff_getElem.1 hx
    simpa using hbefore j (by omega)
  | none =>
    rw [hfind] at hs
    obtain rfl := Option.some.inj hs
    obtain ⟨hcount, hpos⟩ := h.count_grown base fresh
    have hsame : (s.grown base fresh).run = s.run ∧ (s.grown base fresh).clobbered = s.clobbered ∧
        (s.grown base fresh).insertion = s.insertion := by
      rw [grown]
      split <;> exact ⟨rfl, rfl, rfl⟩
    refine ⟨s.count, by rw [← hsame.2.2], hrun, hsame.1, hsame.2.1, hcount, hpos,
      .inr ⟨?_, h.length_live.symm, h.live_grown base fresh⟩⟩
    exact fun c hc ↦ by simpa using List.findIdx?_eq_none_iff.1 hfind c hc

/-- The inserts that are in progress after a step that begins none and moves no slot. -/
theorem refs_append_of_free {c : SchedulerSlot ι} {q : ι} (hfree : c.free s.run = true)
    (hq : s.run q = true) : (s.live ++ [c]).countP (fun c ↦ c.sessionPtr = some q) = s.refs q := by
  have hnot := sessionPtr_ne_of_free hfree hq
  rw [List.countP_append, List.countP_singleton, refs]
  simp [hnot]

/-- Which addresses are remembered after an insert is begun. -/
theorem address_update (f : ι → Insertion) (p : ι) (v : Insertion) {q : ι} {a : ℕ}
    (ha : a ∈ (Function.update f p v q).address) :
    q = p ∧ a ∈ v.address ∨ q ≠ p ∧ a ∈ (f q).address := by
  by_cases hq : q = p
  · subst hq
    rw [Function.update_self] at ha
    exact .inl ⟨rfl, ha⟩
  · rw [Function.update_of_ne hq] at ha
    exact .inr ⟨hq, ha⟩

/-- None comes in with an insert that has kept its own or given it up. -/
theorem address_of_update {f : ι → Insertion} {p : ι} {v : Insertion}
    (hv : ∀ a ∈ v.address, a ∈ (f p).address) {q : ι} {a : ℕ}
    (ha : a ∈ (Function.update f p v q).address) : a ∈ (f q).address := by
  rcases address_update f p v ha with ⟨rfl, hin⟩ | ⟨-, hin⟩
  · exact hv a hin
  · exact hin

theorem Inv.choose_step (h : s.Inv) {p : ι} {base : ℕ} {fresh : ℕ → SchedulerSlot ι}
    (hok : s.StepOk (.choose p base fresh))
    (hs : schedulerStep s (.choose p base fresh) = some t) : t.Inv := by
  obtain ⟨hnot, hbefore, hnew⟩ := hok
  obtain ⟨i, hins, hp, hrun, hclob, hcount, hpos, hcases⟩ := h.choose_cases hs
  have hother {q : ι} (hq : t.insertion q = .inserted) : q ≠ p ∧ s.insertion q = .inserted := by
    rw [hins] at hq
    by_cases hqp : q = p
    · rw [hqp, Function.update_self] at hq
      exact absurd hq (by simp)
    · rw [Function.update_of_ne hqp] at hq
      exact ⟨hqp, hq⟩
  have hzero : s.refs p = 0 := by
    rw [refs, List.countP_eq_zero]
    exact fun c hc ↦ by simpa using hnot c hc
  rcases hcases with ⟨c, hc, hfree, hfirst, hlive, hbase⟩ | ⟨hfull, rfl, hlive⟩
  · have hrefs (q : ι) : t.refs q = s.refs q := by rw [refs, refs, hlive]
    refine ⟨⟨fun q hq hq' ↦ ?_, hclob.trans h.safe.kept⟩, hcount, hpos, fun q a ha ↦ ?_,
      fun q r a hqa hra ↦ ?_, fun q a ha ↦ ?_⟩
    · rw [hrefs]
      exact h.safe.referenced q (hother hq).2 (hrun ▸ hq')
    · rw [hins] at ha
      rw [hlive, hrun, hbase]
      rcases address_update _ _ _ ha with ⟨-, ha⟩ | ⟨-, ha⟩
      · obtain rfl := Option.some.inj ha
        rw [hbase, Nat.add_sub_cancel_left]
        exact ⟨Nat.le_add_right _ _, c, hc, hfree⟩
      · exact h.awaits q a ha
    · -- the first free slot is none of those that wait
      have hfresh {q : ι} (ha : s.base + i ∈ (s.insertion q).address) : False := by
        obtain ⟨x, hx, hxfree⟩ := hbefore q _ ha
        rw [Nat.add_sub_cancel_left] at hx
        exact absurd (hxfree.symm.trans (hfirst x hx)) (by simp)
      rw [hins] at hqa hra
      rcases address_update _ _ _ hqa with ⟨rfl, ha⟩ | ⟨-, hqa⟩
      · obtain rfl := Option.some.inj ha
        rcases address_update _ _ _ hra with ⟨rfl, -⟩ | ⟨-, hra⟩
        · rfl
        · exact (hfresh (hbase ▸ hra)).elim
      · rcases address_update _ _ _ hra with ⟨-, ha⟩ | ⟨-, hra⟩
        · obtain rfl := Option.some.inj ha
          exact (hfresh (hbase ▸ hqa)).elim
        · exact h.alone q r a hqa hra
    · rw [hins] at ha
      rw [hrefs]
      rcases address_update _ _ _ ha with ⟨rfl, -⟩ | ⟨-, ha⟩
      · exact hzero
      · exact h.absent q a ha
  · -- no other insert is in progress: its slot would be free
    have hnone {q : ι} {a : ℕ} (ha : a ∈ (s.insertion q).address) : False := by
      obtain ⟨-, c, hc, hfree⟩ := h.awaits q a ha
      exact absurd (hfree.symm.trans (hfull c (List.mem_of_getElem? hc))) (by simp)
    have hrefs {q : ι} (hq : s.run q = true) : t.refs q = s.refs q := by
      rw [refs, hlive, refs_append_of_free (hnew hfull) hq]
    refine ⟨⟨fun q hq hq' ↦ ?_, hclob.trans h.safe.kept⟩, hcount, hpos, fun q a ha ↦ ?_,
      fun q r a hqa hra ↦ ?_, fun q a ha ↦ ?_⟩
    · rw [hrun] at hq'
      rw [hrefs hq']
      exact h.safe.referenced q (hother hq).2 hq'
    · rw [hins] at ha
      rw [hlive, hrun]
      rcases address_update _ _ _ ha with ⟨-, ha⟩ | ⟨-, ha⟩
      · obtain rfl := Option.some.inj ha
        rw [Nat.add_sub_cancel_left]
        exact ⟨Nat.le_add_right _ _, _, List.getElem?_concat_length, hnew hfull⟩
      · exact (hnone ha).elim
    · rw [hins] at hqa hra
      rcases address_update _ _ _ hqa with ⟨rfl, -⟩ | ⟨-, hqa⟩
      · rcases address_update _ _ _ hra with ⟨rfl, -⟩ | ⟨-, hra⟩
        · rfl
        · exact (hnone hra).elim
      · exact (hnone hqa).elim
    · rw [hins] at ha
      rcases address_update _ _ _ ha with ⟨rfl, -⟩ | ⟨-, ha⟩
      · rw [hrefs hp]
        exact hzero
      · exact (hnone ha).elim

/-! ## A slot is filled -/

/-- What the second half does. -/
theorem fill_cases {p : ι} {times : SchedulerConnection}
    (hs : schedulerStep s (.fill p times) = some t) :
    ∃ a deleted, s.insertion p = .pending a deleted ∧
      t.insertion = Function.update s.insertion p (if deleted then .out else .inserted) ∧
      t.run = s.run ∧ t.clobbered = (s.clobbered || s.clobbers p a) ∧ t.base = s.base ∧
      t.count = s.count ∧ t.slots.length = s.slots.length ∧
      t.live = if s.InTable a then s.live.set (a - s.base) { times with sessionPtr := some p }
        else s.live := by
  rw [schedulerStep] at hs
  split at hs
  · next a deleted hp =>
    obtain rfl := Option.some.inj hs
    exact ⟨a, deleted, hp, rfl, rfl, rfl, rfl, rfl, s.length_store _ _, s.live_store _ _⟩
  · exact absurd hs (by simp)

/-- A free slot is no other live session's. -/
theorem clobbers_of_free {p : ι} {a : ℕ} {c : SchedulerSlot ι} (hc : s.live[a - s.base]? = some c)
    (hfree : c.free s.run = true) : s.clobbers p a = false := by
  rw [clobbers, hc]
  cases hptr : c.sessionPtr with
  | none => simp [hptr]
  | some q => simp [hptr, free_iff.1 hfree q hptr]

theorem Inv.fill_step (h : s.Inv) {p : ι} {times : SchedulerConnection}
    (hs : schedulerStep s (.fill p times) = some t) : t.Inv := by
  obtain ⟨a, deleted, hp, hins, hrun, hclob, hbase, hcount, hlen, hlive⟩ := fill_cases hs
  have hpa : a ∈ (s.insertion p).address := by rw [hp]; rfl
  obtain ⟨hle, c, hc, hfree⟩ := h.awaits p a hpa
  obtain ⟨hlt, hget⟩ := List.getElem?_eq_some_iff.1 hc
  rw [if_pos ⟨hle, hlt⟩] at hlive
  have hrefs (q : ι) : t.refs q =
      (s.live.eraseIdx (a - s.base)).countP (fun c ↦ c.sessionPtr = some q) +
        if p = q then 1 else 0 := by
    rw [refs, hlive, countP_set_eq _ hlt]
    simp
  have hbefore (q : ι) : s.refs q =
      (s.live.eraseIdx (a - s.base)).countP (fun c ↦ c.sessionPtr = some q) +
        if c.sessionPtr = some q then 1 else 0 := by
    rw [refs, countP_eq_eraseIdx _ hlt, hget]
    simp
  -- the other inserts that are in progress
  have hothers {q : ι} {b : ℕ} (hb : b ∈ (t.insertion q).address) :
      q ≠ p ∧ b ∈ (s.insertion q).address := by
    rw [hins] at hb
    rcases address_update _ _ _ hb with ⟨-, hb⟩ | hb
    · cases deleted <;> exact absurd hb (by simp [Insertion.address])
    · exact hb
  refine ⟨⟨fun q hq hq' ↦ ?_, ?_⟩, by rw [hcount, hlen]; exact h.count, by rw [hlen]; exact h.pos,
    fun q b hb ↦ ?_, fun q r b hqb hrb ↦ h.alone q r b (hothers hqb).2 (hothers hrb).2,
    fun q b hb ↦ ?_⟩
  · rw [hrun] at hq'
    by_cases hqp : q = p
    · subst hqp
      have hzero := h.absent q a hpa
      rw [hbefore] at hzero
      rw [hrefs, if_pos rfl]
      omega
    · rw [hins, Function.update_of_ne hqp] at hq
      have hone := h.safe.referenced q hq hq'
      rw [hbefore, if_neg (sessionPtr_ne_of_free hfree hq')] at hone
      rw [hrefs, if_neg (Ne.symm hqp)]
      exact hone
  · rw [hclob, h.safe.kept, clobbers_of_free hc hfree]
    rfl
  · obtain ⟨hne, hb⟩ := hothers hb
    obtain ⟨hle', x, hx, hxfree⟩ := h.awaits q b hb
    have hab : a ≠ b := fun hab ↦ hne (h.alone q p b hb (hab ▸ hpa))
    rw [hbase, hlive, hrun, List.getElem?_set_ne (by omega)]
    exact ⟨hle', x, hx, hxfree⟩
  · obtain ⟨hne, hb⟩ := hothers hb
    have hzero := h.absent q b hb
    rw [hbefore] at hzero
    rw [hrefs, if_neg (Ne.symm hne)]
    omega

/-! ## The other steps -/

/-- The table with other slots in use. -/
theorem Inv.live_overlay (h : s.Inv) {new : List (SchedulerSlot ι)}
    (hnew : new.length = s.live.length) :
    (overlay new s.slots).take s.count = new ∧ (overlay new s.slots).length = s.slots.length := by
  have hlen : new.length = s.count := hnew.trans h.length_live
  have hcount := h.count
  exact ⟨take_overlay_of_length hlen, length_overlay (by omega)⟩

omit [DecidableEq ι] in
/-- A pass leaves a slot where it is, if it moves as many from before it as from behind it. -/
theorem Stays.getElem?_reorderPass {slots : List (SchedulerSlot ι)} {i : ℕ} (h : Stays slots i) :
    (reorderPass slots)[i]? = slots[i]? := by
  cases hc : slots[i]? with
  | none =>
    rw [List.getElem?_eq_none_iff] at hc ⊢
    rw [(reorderPass_perm slots).length_eq]
    exact hc
  | some c =>
    obtain ⟨hi, hget⟩ := List.getElem?_eq_some_iff.1 hc
    have hsplit : slots = slots.take i ++ c :: slots.drop (i + 1) := by
      rw [← hget, ← List.drop_eq_getElem_cons hi, List.take_append_drop]
    obtain ⟨front, back, hsort, hlen⟩ :=
      exists_sortBehind_eq SchedulerSlot.deadline (slots.take i) c (slots.drop (i + 1))
    have hstays := h c hc
    have hcompl := List.length_eq_countP_add_countP (l := slots.take i)
      (fun x ↦ decide (x.deadline ≤ c.deadline))
    have hfront : front.length = i := by
      simp only [List.length_take, decide_eq_true_eq, not_le] at hcompl
      omega
    rw [reorderPass_eq, hsplit, hsort, List.getElem?_append_right hfront.le, hfront, Nat.sub_self]
    rfl

theorem Inv.reorder_step (h : s.Inv) (hok : s.StepOk .reorder)
    (hs : schedulerStep s .reorder = some t) : t.Inv := by
  obtain rfl := Option.some.inj hs
  have hperm := reorderPass_perm s.live
  obtain ⟨hlive, hlen⟩ := h.live_overlay hperm.length_eq
  have hrefs (q : ι) : ((overlay (reorderPass s.live) s.slots).take s.count).countP
      (fun c ↦ c.sessionPtr = some q) = s.refs q := by
    rw [hlive, hperm.countP_eq, refs]
  refine ⟨⟨fun q hq hq' ↦ (hrefs q).trans (h.safe.referenced q hq hq'), h.safe.kept⟩,
    hlen.symm ▸ h.count, hlen.symm ▸ h.pos, fun q a ha ↦ ?_, h.alone,
    fun q a ha ↦ (hrefs q).trans (h.absent q a ha)⟩
  show _ ∧ ∃ c, ((overlay (reorderPass s.live) s.slots).take s.count)[a - s.base]? = some c ∧ _
  rw [hlive, (hok q a ha).getElem?_reorderPass]
  exact h.awaits q a ha

/-- Clearing a slot of one session leaves those of the others, and adds none. -/
theorem countP_clearFirst (p q : ι) (slots : List (SchedulerSlot ι)) :
    (q ≠ p → (clearFirst p slots).countP (fun c ↦ c.sessionPtr = some q) =
      slots.countP fun c ↦ c.sessionPtr = some q) ∧
    (clearFirst p slots).countP (fun c ↦ c.sessionPtr = some q) ≤
      slots.countP fun c ↦ c.sessionPtr = some q := by
  induction slots with
  | nil => exact ⟨fun _ ↦ rfl, le_rfl⟩
  | cons c cs ih =>
    rw [clearFirst]
    split
    · next hc =>
      rw [List.countP_cons_of_neg (by simp [SchedulerSlot.zero]), List.countP_cons]
      refine ⟨fun hq ↦ ?_, Nat.le_add_right _ _⟩
      simp [hc, Ne.symm hq]
    · rw [List.countP_cons, List.countP_cons]
      exact ⟨fun hq ↦ by rw [ih.1 hq], Nat.add_le_add_right ih.2 _⟩

/-- A slot is cleared or left. -/
theorem getElem?_clearFirst (p : ι) (slots : List (SchedulerSlot ι)) (i : ℕ) :
    (clearFirst p slots)[i]? = slots[i]? ∨ (clearFirst p slots)[i]? = some .zero := by
  induction slots generalizing i with
  | nil => exact .inl rfl
  | cons c cs ih =>
    rw [clearFirst]
    split
    · cases i with
      | zero => exact .inr rfl
      | succ i => exact .inl rfl
    · cases i with
      | zero => exact .inl rfl
      | succ i => exact ih i

theorem Inv.delete_step (h : s.Inv) {p : ι} (hs : schedulerStep s (.delete p) = some t) :
    t.Inv := by
  obtain ⟨hlive, hlen⟩ := h.live_overlay (length_clearFirst p s.live)
  have hsame {q : ι} {a : ℕ} (ha : a ∈ (t.insertion q).address) :
      a ∈ (s.insertion q).address := by
    obtain rfl := Option.some.inj hs
    refine address_of_update (fun a ha ↦ ?_) ha
    cases hp : s.insertion p with
    | pending b d => rw [hp] at ha; exact ha
    | out => rw [hp] at ha; exact ha
    | inserted => rw [hp] at ha; exact absurd ha (by simp [Insertion.address])
  obtain rfl := Option.some.inj hs
  refine ⟨⟨fun q hq hq' ↦ ?_, h.safe.kept⟩, hlen.symm ▸ h.count, hlen.symm ▸ h.pos,
    fun q a ha ↦ ?_, fun q r a hqa hra ↦ h.alone q r a (hsame hqa) (hsame hra), fun q a ha ↦ ?_⟩
  · have hne : q ≠ p := by
      rintro rfl
      simp only [Function.update_self] at hq
      split at hq <;> simp at hq
    simp only [Function.update_of_ne hne] at hq
    show ((overlay (clearFirst p s.live) s.slots).take s.count).countP _ = _
    rw [hlive, (countP_clearFirst p q s.live).1 hne]
    exact h.safe.referenced q hq hq'
  · obtain ⟨hle, c, hc, hfree⟩ := h.awaits q a (hsame ha)
    show _ ∧ ∃ c, ((overlay (clearFirst p s.live) s.slots).take s.count)[a - s.base]? = some c ∧ _
    rw [hlive]
    rcases getElem?_clearFirst p s.live (a - s.base) with hkeep | hzero
    · exact ⟨hle, c, hkeep.trans hc, hfree⟩
    · exact ⟨hle, .zero, hzero, rfl⟩
  · have hle := (countP_clearFirst p q s.live).2
    have hzero := h.absent q a (hsame ha)
    show ((overlay (clearFirst p s.live) s.slots).take s.count).countP _ = _
    rw [hlive]
    rw [refs] at hzero
    omega

theorem Inv.start_step (h : s.Inv) {p : ι} (hok : s.StepOk (.start p))
    (hs : schedulerStep s (.start p) = some t) : t.Inv := by
  rw [schedulerStep, Option.ite_none_right_eq_some] at hs
  obtain ⟨-, hs⟩ := hs
  have hsame {q : ι} {a : ℕ} (ha : a ∈ (t.insertion q).address) :
      a ∈ (s.insertion q).address := by
    obtain rfl := Option.some.inj hs
    refine address_of_update (fun a ha ↦ ?_) ha
    cases hp : s.insertion p with
    | pending b d => rw [hp] at ha; exact ha
    | out => rw [hp] at ha; exact ha
    | inserted => rw [hp] at ha; exact absurd ha (by simp [Insertion.address])
  obtain rfl := Option.some.inj hs
  refine ⟨⟨fun q hq hq' ↦ ?_, h.safe.kept⟩, h.count, h.pos, fun q a ha ↦ ?_,
    fun q r a hqa hra ↦ h.alone q r a (hsame hqa) (hsame hra), fun q a ha ↦ h.absent q a (hsame ha)⟩
  · have hne : q ≠ p := by
      rintro rfl
      simp only [Function.update_self] at hq
      split at hq <;> simp at hq
    simp only [Function.update_of_ne hne] at hq hq'
    exact h.safe.referenced q hq hq'
  · obtain ⟨hle, c, hc, hfree⟩ := h.awaits q a (hsame ha)
    refine ⟨hle, c, hc, free_iff.2 fun r hptr ↦ ?_⟩
    have hr : r ≠ p := fun hr ↦ hok q a (hsame ha) c hc (hr ▸ hptr)
    exact (Function.update_of_ne hr _ _).trans (free_iff.1 hfree r hptr)

theorem Inv.stop_step (h : s.Inv) {p : ι} (hs : schedulerStep s (.stop p) = some t) : t.Inv := by
  obtain rfl := Option.some.inj hs
  refine ⟨⟨fun q hq hq' ↦ ?_, h.safe.kept⟩, h.count, h.pos, fun q a ha ↦ ?_, h.alone, h.absent⟩
  · have hne : q ≠ p := by
      rintro rfl
      simp at hq'
    simp only [Function.update_of_ne hne] at hq'
    exact h.safe.referenced q hq hq'
  · obtain ⟨hle, c, hc, hfree⟩ := h.awaits q a ha
    refine ⟨hle, c, hc, free_iff.2 fun r hptr ↦ ?_⟩
    by_cases hr : r = p
    · rw [hr]
      exact Function.update_self _ _ _
    · exact (Function.update_of_ne hr _ _).trans (free_iff.1 hfree r hptr)

theorem Inv.step (h : s.Inv) (e : SchedulerEvent ι) (hok : s.StepOk e)
    (hs : schedulerStep s e = some t) : t.Inv := by
  cases e with
  | choose p base fresh => exact h.choose_step hok hs
  | fill p times => exact h.fill_step hs
  | reorder => exact h.reorder_step hok hs
  | delete p => exact h.delete_step hs
  | start p => exact h.start_step hok hs
  | stop p => exact h.stop_step hs

instance [Fintype ι] (s : Scheduler ι) : DecidablePred s.StepOk
  | .choose _ _ _ => inferInstanceAs (Decidable (_ ∧ _ ∧ (_ → _)))
  | .fill _ _ => inferInstanceAs (Decidable True)
  | .reorder => inferInstanceAs (Decidable (∀ q, ∀ a ∈ (s.insertion q).address, ∀ c ∈ _, _ = _))
  | .delete _ => inferInstanceAs (Decidable True)
  | .start _ => inferInstanceAs (Decidable (∀ q, ∀ a ∈ (s.insertion q).address, ∀ c ∈ _, _ ≠ _))
  | .stop _ => inferInstanceAs (Decidable True)

end Scheduler

/-- **No scheduler entry is lost** as long as the inserts in progress are let alone.  For any
sessions, from an empty table and over every order of the two halves of inserts, reorder passes,
deletes and changes of the `run` flags whose steps meet `StepOk`: in every state each session that
is inserted, not deleted and live is in exactly one slot, and no live session's slot was overwritten
by another's. -/
theorem scheduler_safe (base : ℕ) (run : ι → Bool) {es : List (SchedulerEvent ι)}
    (h : Guarded schedulerStep Scheduler.StepOk (.schedStart base run) es) :
    Always schedulerStep Scheduler.Safe (.schedStart base run) es :=
  always_of_guarded Scheduler.Inv (fun _ h ↦ h.safe) (fun _ e _ h hok hs ↦ h.step e hok hs) es
    (Scheduler.Inv.schedStart base run) h

end

/-- Three inserts, where the slot before that of the second becomes free while it waits: the third
chooses it, and a reorder pass moves neither. -/
theorem scheduler_safe_three :
    let es : List (SchedulerEvent (Fin 3)) :=
      [.choose 0 0 fun _ ↦ .zero, .fill 0 ⟨0, 5, 0⟩, .choose 1 0 fun _ ↦ .zero, .delete 0,
        .choose 2 0 fun _ ↦ .zero, .reorder, .fill 2 ⟨0, 7, 0⟩, .fill 1 ⟨0, 6, 0⟩, .reorder]
    (Transition.run schedulerStep (.schedStart 0x1000 fun _ ↦ true) es).isSome = true ∧
      Always schedulerStep Scheduler.Safe (.schedStart 0x1000 fun _ ↦ true) es :=
  ⟨by decide +kernel, scheduler_safe _ _ (by decide +kernel)⟩

/-- Two inserts at once: the second chooses the slot that the first has chosen and not filled yet,
and overwrites it. -/
theorem scheduler_not_safe :
    ¬ Always schedulerStep Scheduler.Safe (.schedStart 0x1000 fun _ : Bool ↦ true)
      [.choose false 0 fun _ ↦ .zero, .choose true 0 fun _ ↦ .zero, .fill false ⟨0, 1, 0⟩,
        .fill true ⟨0, 2, 0⟩] := by
  intro hA
  have hlast : (run schedulerStep (.schedStart 0x1000 fun _ : Bool ↦ true)
      [.choose false 0 fun _ ↦ .zero, .choose true 0 fun _ ↦ .zero, .fill false ⟨0, 1, 0⟩,
        .fill true ⟨0, 2, 0⟩]).map Scheduler.clobbered = some true := by decide +kernel
  obtain ⟨t, ht, hclob⟩ := Option.map_eq_some_iff.1 hlast
  exact absurd (hA.of_run ht).kept (by simp [hclob])

end DmmrOrbit
