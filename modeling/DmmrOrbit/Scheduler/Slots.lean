import Mathlib.Data.List.GetD
import Mathlib.Data.List.Perm.Basic
import Mathlib.Logic.Function.Basic
import DmmrOrbit.Lib.Transition
import DmmrOrbit.Structs

/-!
# The slots of the scheduler

`dmmr_scheduler.c` keeps an array of slots, each with the three times of a session and a pointer to
it.  `sched_insert` works in two steps: `get_scheduler_connection` looks for a slot without a live
session, under the lock, and the slot is filled after the lock is gone, through the address that was
returned.  Until it is filled the slot looks as free as before.

In between, another insert may choose the same slot, a pass of `_reorder_thread` may put another
slot in its place, and `realloc` may take the array elsewhere.  The state is therefore one of
memory: an address `a` is the slot `a - base` as long as the array lies at `base`.

`schedulerStep` is one step of any of them: the two halves of an insert, a reorder pass, a delete,
and a change of a session's `run` flag.
-/

set_option autoImplicit false

namespace DmmrOrbit

open Transition

/-- Counting with one place set apart. -/
theorem countP_set_eq {α : Type} (q : α → Bool) {l : List α} {i : ℕ} (h : i < l.length) (a : α) :
    (l.set i a).countP q = (l.eraseIdx i).countP q + if q a then 1 else 0 := by
  rw [List.set_eq_take_append_cons_drop, if_pos h, List.eraseIdx_eq_take_drop_succ,
    List.countP_append, List.countP_append, List.countP_cons]
  omega

theorem countP_eq_eraseIdx {α : Type} (q : α → Bool) {l : List α} {i : ℕ} (h : i < l.length) :
    l.countP q = (l.eraseIdx i).countP q + if q l[i] then 1 else 0 := by
  have hset := countP_set_eq q h l[i]
  rwa [List.set_getElem_self] at hset

/-! ## The slots -/

/-- `struct scheduler_connection` with the address of its session. -/
structure SchedulerSlot (ι : Type) extends SchedulerConnection where
  sessionPtr : Option ι
  deriving DecidableEq

/-- A slot in zeroed memory. -/
def SchedulerSlot.zero {ι : Type} : SchedulerSlot ι where
  lastActiveTimeUs := 0
  realtimeDeadlineUs := 0
  deadlineUs := 0
  sessionPtr := none

section

variable {ι : Type}

/-- The test of `get_scheduler_connection`: no session, or one that does not run. -/
def SchedulerSlot.free (run : ι → Bool) (c : SchedulerSlot ι) : Bool :=
  match c.sessionPtr with
  | none => true
  | some p => !run p

/-- The binary search of `_reorder_thread` between `left` and `right - 1`: the first position whose
deadline is later than the key's.  Each turn makes the range shorter, so `fuel` turns are enough for
one of that length. -/
def searchDeadline (sorted : List (SchedulerSlot ι)) (key : UInt64) : ℕ → ℕ → ℕ → ℕ
  | 0, left, _ => left
  | fuel + 1, left, right =>
    if left < right then
      let mid := (left + (right - 1)) / 2
      if (sorted.getD mid .zero).realtimeDeadlineUs ≤ key then
        searchDeadline sorted key fuel (mid + 1) right
      else searchDeadline sorted key fuel left mid
    else left

/-- The key at `i` goes to its place among the `i` slots before it, and those behind that place move
up by one. -/
def insertByDeadline (sorted : List (SchedulerSlot ι)) (key : SchedulerSlot ι) :
    List (SchedulerSlot ι) :=
  let left := searchDeadline sorted key.realtimeDeadlineUs sorted.length 0 sorted.length
  sorted.take left ++ key :: sorted.drop left

/-- One locked pass of `_reorder_thread` over the slots in use. -/
def reorderPass (slots : List (SchedulerSlot ι)) : List (SchedulerSlot ι) :=
  slots.foldl insertByDeadline []

/-- The loop of `sched_delete`: the first slot of the session is cleared. -/
def clearFirst [DecidableEq ι] (p : ι) : List (SchedulerSlot ι) → List (SchedulerSlot ι)
  | [] => []
  | c :: cs => if c.sessionPtr = some p then .zero :: cs else c :: clearFirst p cs

theorem length_clearFirst [DecidableEq ι] (p : ι) (slots : List (SchedulerSlot ι)) :
    (clearFirst p slots).length = slots.length := by
  induction slots with
  | nil => rfl
  | cons c cs ih =>
    rw [clearFirst]
    split
    · rfl
    · rw [List.length_cons, List.length_cons, ih]

theorem insertByDeadline_perm (sorted : List (SchedulerSlot ι)) (key : SchedulerSlot ι) :
    (insertByDeadline sorted key).Perm (key :: sorted) := by
  rw [insertByDeadline]
  refine List.perm_middle.trans ?_
  rw [List.take_append_drop]

/-- A pass loses no slot and doubles none. -/
theorem reorderPass_perm (slots : List (SchedulerSlot ι)) : (reorderPass slots).Perm slots := by
  have hfold : ∀ (slots sorted : List (SchedulerSlot ι)),
      (slots.foldl insertByDeadline sorted).Perm (sorted ++ slots) := by
    intro slots
    induction slots with
    | nil => intro sorted; rw [List.append_nil]; exact .refl _
    | cons c cs ih =>
      intro sorted
      refine (ih _).trans ?_
      refine ((insertByDeadline_perm sorted c).append_right cs).trans ?_
      exact List.perm_middle.symm
  exact hfold slots []

end

/-! ## The scheduler -/

/-- How far the insert of a session is: not begun, or over by a delete; between its two steps, with
the address it remembers, and with a mark if the session was deleted meanwhile; done. -/
inductive Insertion
  | out
  | pending (address : ℕ) (deleted : Bool)
  | inserted
  deriving DecidableEq, Repr

/-- The address that an insert remembers. -/
def Insertion.address : Insertion → Option ℕ
  | .pending a _ => some a
  | _ => none

/-- The scheduler's variables, with the array at `base`; the sessions' `run` flags; and two things
to look back on, how far each insert is and whether a fill has overwritten the slot of another live
session. -/
structure Scheduler (ι : Type) where
  base : ℕ
  slots : List (SchedulerSlot ι)
  count : ℕ
  run : ι → Bool
  insertion : ι → Insertion
  clobbered : Bool

/-- What the threads do.  `start` and `stop` are `insert_session` and `delete_session`, as far as
they touch the flag. -/
inductive SchedulerEvent (ι : Type)
  /-- The locked section of `get_scheduler_connection`; `base` and `fresh` are the address and the
  new memory that `realloc` gives, if it is called. -/
  | choose (p : ι) (base : ℕ) (fresh : ℕ → SchedulerSlot ι)
  /-- The rest of `sched_insert`, with the times it stores. -/
  | fill (p : ι) (times : SchedulerConnection)
  | reorder
  | delete (p : ι)
  | start (p : ι)
  | stop (p : ι)

section

variable {ι : Type}

namespace Scheduler

/-- The slots in use. -/
def live (s : Scheduler ι) : List (SchedulerSlot ι) := s.slots.take s.count

/-- The table after the call of `realloc`, if one is due. -/
def grown (s : Scheduler ι) (base : ℕ) (fresh : ℕ → SchedulerSlot ι) : Scheduler ι :=
  if s.count ≥ s.slots.length then
    { s with base := base, slots := s.slots ++ (List.range s.slots.length).map fresh }
  else s

/-- `get_scheduler_connection` with a `realloc` that succeeds: the address, and the table. -/
def getSchedulerConnection (s : Scheduler ι) (base : ℕ) (fresh : ℕ → SchedulerSlot ι) :
    ℕ × Scheduler ι :=
  match s.live.findIdx? (fun c ↦ c.free s.run) with
  | some i => (s.base + i, s)
  | none => ((s.grown base fresh).base + s.count, { s.grown base fresh with count := s.count + 1 })

/-- The address is that of a slot in use. -/
def InTable (s : Scheduler ι) (a : ℕ) : Prop := s.base ≤ a ∧ a - s.base < s.live.length

instance (s : Scheduler ι) (a : ℕ) : Decidable (s.InTable a) :=
  inferInstanceAs (Decidable (_ ∧ _))

/-- A write through the address; outside the array it hits memory that is not the scheduler's. -/
def store (s : Scheduler ι) (a : ℕ) (c : SchedulerSlot ι) : List (SchedulerSlot ι) :=
  if s.base ≤ a then s.slots.set (a - s.base) c else s.slots

/-- A fill puts the session into its slot, if the address is still that of one. -/
theorem live_store (s : Scheduler ι) (a : ℕ) (c : SchedulerSlot ι) :
    (s.store a c).take s.count =
      if s.InTable a then s.live.set (a - s.base) c else s.live := by
  have hset : (s.slots.set (a - s.base) c).take s.count = s.live.set (a - s.base) c :=
    List.take_set
  rw [store]
  by_cases hin : s.InTable a
  · rw [if_pos hin, if_pos hin.1, hset]
  · rw [if_neg hin]
    split
    · next hbase =>
      have hlen : s.live.length ≤ a - s.base := Nat.le_of_not_lt fun hlt ↦ hin ⟨hbase, hlt⟩
      rw [hset, List.set_eq_of_length_le hlen]
    · rfl

theorem length_store (s : Scheduler ι) (a : ℕ) (c : SchedulerSlot ι) :
    (s.store a c).length = s.slots.length := by
  rw [store]
  split
  · exact List.length_set
  · rfl

variable [DecidableEq ι]

/-- The slot at the address belongs to a live session other than `p`. -/
def clobbers (s : Scheduler ι) (p : ι) (a : ℕ) : Bool :=
  decide (s.base ≤ a) &&
    (s.live[a - s.base]?).any fun c ↦ c.sessionPtr.any fun q ↦ decide (q ≠ p) && s.run q

/-- `sched_start`: 0x400 slots in zeroed memory. -/
def schedStart (base : ℕ) (run : ι → Bool) : Scheduler ι where
  base := base
  slots := List.replicate 0x400 .zero
  count := 0
  run := run
  insertion _ := .out
  clobbered := false

end Scheduler

variable [DecidableEq ι]

/-- One event.  An insert is begun for a live session that is not inserted and not being inserted.
-/
def schedulerStep (s : Scheduler ι) : SchedulerEvent ι → Option (Scheduler ι)
  | .choose p base fresh =>
    if s.run p = true ∧ s.insertion p = .out then
      let (a, t) := s.getSchedulerConnection base fresh
      some { t with insertion := Function.update s.insertion p (.pending a false) }
    else none
  | .fill p times =>
    match s.insertion p with
    | .pending a deleted =>
      some { s with
        slots := s.store a { times with sessionPtr := some p }
        insertion := Function.update s.insertion p (if deleted then .out else .inserted)
        clobbered := s.clobbered || s.clobbers p a }
    | _ => none
  | .reorder => some { s with slots := overlay (reorderPass s.live) s.slots }
  | .delete p =>
    some { s with
      slots := overlay (clearFirst p s.live) s.slots
      insertion := Function.update s.insertion p
        (match s.insertion p with
        | .pending a _ => .pending a true
        | _ => .out) }
  | .start p =>
    if s.run p = false then
      some { s with
        run := Function.update s.run p true
        insertion := Function.update s.insertion p
          (match s.insertion p with
          | .pending a deleted => .pending a deleted
          | _ => .out) }
    else none
  | .stop p => some { s with run := Function.update s.run p false }

end

end DmmrOrbit
