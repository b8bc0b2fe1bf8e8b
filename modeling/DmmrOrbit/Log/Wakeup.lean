import Mathlib.Algebra.Order.BigOperators.Group.Finset
import DmmrOrbit.Lib.Monitor
import DmmrOrbit.Log.LogThread

/-!
# The lock and the condition variable of the log

Any number of threads call `rb_log_push`, the log thread waits for messages, and `rb_log_shutdown`
tells it to end, waits for that and destroys what they share.  Between them are `log_buf.lock` and
`log_buf.cond`, and a thread can be interrupted at every call of `pthread`: in `rb_log_push` after
`pthread_mutex_lock`, after the line has been formatted and `write_pos` moved, and after
`pthread_cond_signal`; in `rb_log_shutdown` likewise, and once more before `pthread_join`,
`pthread_mutex_destroy` and `pthread_cond_destroy`; in the log thread before the lock, at the test
of the inner `while`, in `pthread_cond_wait`, after the wake-up, before and after the drain, and
before the test of `run`, which it reads without the lock.

This is a monitor of `Monitor` with the buffer as its data (`rbLogStore`).  The runs begin where
`connect` to `/dev/log` has succeeded: a thread that cannot connect returns at once, and nobody
empties the buffer.  And they are those in which every call of `rb_log_push` has returned before
`rb_log_shutdown` destroys the mutex (`Event.InTime`): nobody is kept out by a mutex after that.

`logThreads_live` is the result, for every interleaving of this kind: the calls return and the
thread ends, after a number of steps that is linear in the number of messages; where neither a
caller of `rb_log_push` nor the log thread can move, all messages have been handed on and the thread
waits; where `rb_log_shutdown` cannot move either, it has returned.  And if there are fewer messages
than the ring has lines, each has been written, in the order of the pushes, or is in the buffer.
-/

set_option autoImplicit false

open Cyclic Transition Monitor

namespace DmmrOrbit

/-- The buffer is between its last line and its first. -/
theorem RbLogBuffer.readPos_drain (b : RbLogBuffer) : b.drain.2.readPos = b.drain.2.writePos := by
  obtain ⟨d, hd, hw⟩ := exists_shift_eq b.readPos b.writePos
  obtain ⟨-, hend⟩ := b.drain_eq hd hw.symm
  rw [hend, readPos_skip, writePos_skip, hw]

/-- The bodies of `rb_log_push`, of the test of the inner `while` and of the drain loop. -/
def rbLogStore : Store RbLogBuffer LogCall (List UInt8) where
  put := RbLogBuffer.push
  ready b := b.readPos ≠ b.writePos
  drain b := (b.drain.1.flatten, b.drain.2)
  ready_drain b := by simpa using b.readPos_drain

/-- The threads: those that push, the log thread, and the one that calls `rb_log_shutdown`. -/
abbrev LogThreads (ι : Type) := Monitor.State ι RbLogBuffer LogCall (List UInt8)

/-- The texts of the messages, in the order of the pushes. -/
def pushedTexts {ι : Type} (ops : List (Op ι LogCall)) : List (List UInt8) :=
  ops.filterMap fun
    | .put _ c => some c.text
    | .drain => none

namespace LogThreads

variable {ι : Type} [DecidableEq ι]

/-- No call of `rb_log_push` and not the log thread can move. -/
def AtRest (s : LogThreads ι) : Prop :=
  (∀ i, producerStep rbLogStore s i = none) ∧ consumerStep rbLogStore s = none

/-- Every call of `rb_log_push` has returned. -/
def AllPushed (s : LogThreads ι) : Prop := ∀ i, s.producer i = ⟨.idle, []⟩

end LogThreads

section

variable {ι : Type}

theorem pushedTexts_concat (ops : List (Op ι LogCall)) (op : Op ι LogCall) :
    pushedTexts (ops ++ [op]) = pushedTexts ops ++ pushedTexts [op] :=
  List.filterMap_append

/-- As long as there are few messages, those that have been pushed have been handed on or are
pending. -/
theorem replay_rbLogStore {ops : List (Op ι LogCall)} (h : (pushedTexts ops).length < 256) :
    ∃ l, (replay rbLogStore .zero ops).2.Holds l ∧ l.length < 256 ∧
      (replay rbLogStore .zero ops).1 ++ l = pushedTexts ops := by
  induction ops using List.reverseRecOn with
  | nil => exact ⟨[], RbLogBuffer.holds_nil rfl, by decide, rfl⟩
  | append_singleton ops op ih =>
    rw [pushedTexts_concat, List.length_append] at h
    obtain ⟨l, hholds, hlt, hl⟩ := ih (by omega)
    rw [replay_concat, pushedTexts_concat, ← hl]
    cases op with
    | put i c =>
      refine ⟨l ++ [c.text], hholds.push c, ?_, ?_⟩
      · have hone : (pushedTexts [Op.put i c]).length = 1 := rfl
        rw [← hl, List.length_append] at h
        rw [List.length_append, List.length_singleton]
        omega
      · rw [← List.append_assoc]
        rfl
    | drain =>
      obtain ⟨hout, hempty⟩ := hholds.drain
      refine ⟨[], hempty, by decide, ?_⟩
      have hall : l.drop (256 * (l.length / 256)) = l := by
        rw [Nat.div_eq_of_lt hlt, Nat.mul_zero, List.drop_zero]
      show (replay rbLogStore .zero ops).1 ++
        (replay rbLogStore .zero ops).2.drain.1.flatten ++ [] = _
      rw [hout, hall, List.append_nil]
      exact (List.append_nil _).symm

end

section

variable {ι : Type} [DecidableEq ι] [Fintype ι]

/-- The messages that have been pushed are some of those there are to push. -/
theorem length_pushedTexts_le (ops : List (Op ι LogCall)) (calls : ι → List LogCall)
    (h : ∀ i, (putsOf i ops).length ≤ (calls i).length) :
    (pushedTexts ops).length ≤ ∑ i, (calls i).length := by
  have hsum : (pushedTexts ops).length = ∑ i, (putsOf i ops).length := by
    clear h
    induction ops using List.reverseRecOn with
    | nil => simp [pushedTexts, putsOf]
    | append_singleton ops op ih =>
      simp only [pushedTexts_concat, putsOf_concat, List.length_append, Finset.sum_add_distrib, ih]
      cases op with
      | put i c =>
        congr 1
        have hone (j : ι) : (putsOf j [Op.put i c]).length = if i = j then 1 else 0 := by
          by_cases hij : i = j <;> simp [putsOf, hij]
        simp [hone, pushedTexts]
      | drain => simp [pushedTexts, putsOf]
  rw [hsum]
  exact Finset.sum_le_sum fun i _ ↦ h i

/-- **The log neither blocks nor runs on.**  For any number of threads with any number of messages
each, a log thread that has connected to `/dev/log`, and every interleaving of them with
`rb_log_shutdown` in which each push has returned before the mutex is destroyed:

* no run has more than 16 steps for each message, 26 others and 8 for each spurious wake-up;
* where neither a push nor the log thread can move before `rb_log_shutdown` has been called, every
  push has returned and the log thread waits, with no line left to read;
* where `rb_log_shutdown` cannot move either, it has returned, and the thread has ended;
* every thread has pushed its messages in its order, and if there are fewer than 256 in all, those
  pushed so far are those that have been written and then those pending in the buffer, in the order
  of the pushes. -/
theorem logThreads_live (calls : ι → List LogCall) {es : List (Event ι)} {s : LogThreads ι}
    (hin : Guarded (step rbLogStore) (fun s e ↦ e.InTime s) (.start .zero calls) es)
    (h : run (step rbLogStore) (.start .zero calls) es = some s) :
    es.length ≤ 16 * ∑ i, (calls i).length + 26 + 8 * es.count .spurious ∧
    (s.AtRest → s.stopper = .idle →
      s.AllPushed ∧ s.consumer = .asleep ∧ s.data.readPos = s.data.writePos) ∧
    (s.AtRest → stopStep s = none → s.AllPushed ∧ s.consumer = .done ∧ s.stopper = .done) ∧
    (∀ i, putsOf i s.ops ++ (s.producer i).todo = calls i) ∧
    (∑ i, (calls i).length < 256 → s.output ++ s.data.pending = pushedTexts s.ops) := by
  have hinv := (inv_start (S := rbLogStore) RbLogBuffer.zero calls).of_run hin h
  refine ⟨?_, fun hrest hstop ↦ ?_, fun hrest hstop ↦ ?_, hinv.kept, fun hfew ↦ ?_⟩
  · have hlen := length_le h
    have hstart := cost_start rbLogStore RbLogBuffer.zero calls
    omega
  · obtain ⟨hput, hasleep, hready⟩ := hinv.quiet hrest.1 hrest.2 hstop
    exact ⟨hput, hasleep, by simpa [rbLogStore] using hready⟩
  · exact hinv.ended_of_none hrest.1 hrest.2 hstop
  · have hpushed : (pushedTexts s.ops).length < 256 := by
      refine (length_pushedTexts_le s.ops calls fun i ↦ ?_).trans_lt hfew
      rw [← hinv.kept i, List.length_append]
      exact Nat.le_add_right _ _
    obtain ⟨l, hholds, hlt, hl⟩ := replay_rbLogStore hpushed
    rw [hinv.replay] at hholds hl
    rw [hholds.pending_eq hlt]
    exact hl

/-- Two threads push, the first one while the log thread waits, the second one while it is between
two rounds of its loop; then `rb_log_shutdown` ends it. -/
def twoPushers : List (Event (Fin 2)) :=
  List.replicate 2 .consumer ++ List.replicate 4 (.producer 0) ++ List.replicate 4 .consumer ++
  [.producer 1, .consumer] ++ List.replicate 3 (.producer 1) ++ List.replicate 4 .stopper ++
  List.replicate 5 .consumer ++ List.replicate 3 .stopper

/-- Both messages have been written, and all threads have come to their end. -/
theorem logThreads_live_two :
    ∃ s : LogThreads (Fin 2),
      run (step rbLogStore) (.start .zero fun _ ↦ [⟨[0x61], [0x66], 1⟩]) twoPushers = some s ∧
      s.AllPushed ∧ s.consumer = .done ∧ s.stopper = .done ∧ s.output.length = 2 ∧
      s.output ++ s.data.pending = pushedTexts s.ops := by
  have hin : Guarded (step rbLogStore) (fun s e ↦ e.InTime s)
      (.start .zero fun _ ↦ [⟨[0x61], [0x66], 1⟩]) twoPushers := by decide +kernel
  have hrun : (run (step rbLogStore) (.start .zero fun _ ↦ [⟨[0x61], [0x66], 1⟩]) twoPushers).map
      (fun s ↦ (decide (∀ i, (producerStep rbLogStore s i).isNone),
        (consumerStep rbLogStore s).isNone, (stopStep s).isNone, s.output.length)) =
      some (true, true, true, 2) := by decide +kernel
  obtain ⟨s, hs, hend⟩ := Option.map_eq_some_iff.1 hrun
  simp only [Prod.mk.injEq, decide_eq_true_iff, Option.isNone_iff_eq_none] at hend
  obtain ⟨hprod, hcons, hstop, hlen⟩ := hend
  obtain ⟨-, -, hended, -, hwritten⟩ := logThreads_live _ hin hs
  obtain ⟨hpushed, hdone, hreturned⟩ := hended ⟨hprod, hcons⟩ hstop
  exact ⟨s, hs, hpushed, hdone, hreturned, hlen, hwritten (by decide)⟩

end

end DmmrOrbit
