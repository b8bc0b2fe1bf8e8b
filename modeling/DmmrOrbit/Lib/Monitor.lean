import Mathlib.Algebra.BigOperators.Ring.Finset
import DmmrOrbit.Lib.Routing
import DmmrOrbit.Lib.Transition

/-!
# A monitor with one consumer

Data that any number of producers put items into, and one consumer takes them out of, under a lock.
The consumer waits on a condition variable while there is nothing to take; a producer signals it
while it still has the lock.  One more thread ends all this: it clears the flag `run` under the
lock, signals, waits for the consumer to end, and destroys the lock and the condition variable.  A
lock that has been destroyed keeps nobody out.

A thread takes one step for each point where another one can come in between: to take the lock, to
change the data, to signal, to release the lock.  A wait releases the lock and falls asleep in one
step, and who has been woken takes the lock again and repeats the test.  The condition variable may
also wake the consumer for no reason (`Event.spurious`).

What holds over all interleavings in which every put has come to its end before the lock is
destroyed (`Event.InTime`):

* no signal is lost, and nobody waits for ever (`Inv.ended`, `Inv.quiet`): where no thread can move,
  the consumer is asleep with nothing left to take and the flag set, or all have come to their end;
* every thread comes to its end (`length_le`): the steps are no more than those of the program, and
  a few for each spurious wake-up;
* what the consumer has taken is what it would take if the puts and the takes were made one after
  the other, each as a whole (`Inv.replay`).
-/

set_option autoImplicit false

namespace Monitor

open Transition

variable {ι δ α β : Type}

/-! ## The threads -/

/-- The operations on the data.  What has been drained is not there any more. -/
structure Store (δ α β : Type) where
  put : δ → α → δ
  ready : δ → Bool
  drain : δ → List β × δ
  ready_drain : ∀ d, ready (drain d).2 = false

/-- Where a producer is: outside, with the lock, after its put, after its signal. -/
inductive ProducerPc
  | idle
  | locked
  | stored
  | signalled
  deriving DecidableEq, Repr

/-- Where the consumer is: before it takes the lock, at the test, in the wait, woken but without the
lock, before and after the drain, before it looks at `run` again, at its end. -/
inductive ConsumerPc
  | entering
  | testing
  | asleep
  | woken
  | draining
  | drained
  | released
  | done
  deriving DecidableEq, Repr

/-- The consumer wakes up, if it is asleep. -/
def ConsumerPc.signal : ConsumerPc → ConsumerPc
  | .asleep => .woken
  | c => c

/-- Where the thread is that ends the consumer: outside, with the lock, after the flag has been
cleared, after the signal, waiting for the consumer, before and after it destroys the lock, at its
end, when it has destroyed the condition variable too. -/
inductive StopPc
  | idle
  | locked
  | cleared
  | signalled
  | joining
  | joined
  | destroyed
  | done
  deriving DecidableEq, Repr

/-- The lock is still there. -/
def StopPc.hasLock : StopPc → Bool
  | .destroyed | .done => false
  | .idle | .locked | .cleared | .signalled | .joining | .joined => true

inductive Thread (ι : Type)
  | producer (i : ι)
  | consumer
  | stopper
  deriving DecidableEq, Repr

/-- A producer, with the items it has still to put. -/
structure Producer (α : Type) where
  pc : ProducerPc
  todo : List α
  deriving DecidableEq, Repr

/-- An operation on the data, as a whole: the put of a producer, or a drain. -/
inductive Op (ι α : Type)
  | put (i : ι) (a : α)
  | drain
  deriving DecidableEq, Repr

structure State (ι δ α β : Type) where
  data : δ
  run : Bool
  lock : Option (Thread ι)
  producer : ι → Producer α
  consumer : ConsumerPc
  stopper : StopPc
  /-- What the consumer has taken. -/
  output : List β
  /-- The operations so far. -/
  ops : List (Op ι α)

/-- A step of one of the threads; `spurious` wakes the consumer for no reason. -/
inductive Event (ι : Type)
  | producer (i : ι)
  | consumer
  | stopper
  | spurious
  deriving DecidableEq, Repr

/-- The program has not begun: each producer has its items, and the consumer is about to take the
lock. -/
def State.start (d : δ) (items : ι → List α) : State ι δ α β where
  data := d
  run := true
  lock := none
  producer i := ⟨.idle, items i⟩
  consumer := .entering
  stopper := .idle
  output := []
  ops := []

/-- `lock` returns: nobody has the lock, or it is there no more. -/
def State.Free (s : State ι δ α β) : Prop := s.stopper.hasLock = true → s.lock.isNone = true

instance (s : State ι δ α β) : Decidable s.Free := inferInstanceAs (Decidable (_ → _))

theorem State.free_of_lock {s : State ι δ α β} (hl : s.lock = none) : s.Free :=
  fun _ ↦ by rw [hl]; rfl

section Step

variable [DecidableEq ι] (S : Store δ α β)

def producerStep (s : State ι δ α β) (i : ι) : Option (State ι δ α β) :=
  match s.producer i with
  | ⟨.idle, todo⟩ =>
    if todo.isEmpty = false ∧ s.Free then
      some { s with
        lock := some (.producer i), producer := Function.update s.producer i ⟨.locked, todo⟩ }
    else none
  | ⟨.locked, []⟩ => none
  | ⟨.locked, a :: todo⟩ =>
    some { s with
      data := S.put s.data a
      producer := Function.update s.producer i ⟨.stored, todo⟩
      ops := s.ops ++ [.put i a] }
  | ⟨.stored, todo⟩ =>
    some { s with
      producer := Function.update s.producer i ⟨.signalled, todo⟩, consumer := s.consumer.signal }
  | ⟨.signalled, todo⟩ =>
    some { s with lock := none, producer := Function.update s.producer i ⟨.idle, todo⟩ }

omit [DecidableEq ι] in
def consumerStep (s : State ι δ α β) : Option (State ι δ α β) :=
  match s.consumer with
  | .entering | .woken =>
    if s.Free then some { s with lock := some .consumer, consumer := .testing } else none
  | .testing =>
    if S.ready s.data = false ∧ s.run then some { s with lock := none, consumer := .asleep }
    else some { s with consumer := .draining }
  | .draining =>
    some { s with
      data := (S.drain s.data).2
      consumer := .drained
      output := s.output ++ (S.drain s.data).1
      ops := s.ops ++ [.drain] }
  | .drained => some { s with lock := none, consumer := .released }
  | .released => some { s with consumer := if s.run then .entering else .done }
  | .asleep | .done => none

omit [DecidableEq ι] in
def stopStep (s : State ι δ α β) : Option (State ι δ α β) :=
  match s.stopper with
  | .idle =>
    if s.Free then some { s with lock := some .stopper, stopper := .locked } else none
  | .locked => some { s with run := false, stopper := .cleared }
  | .cleared => some { s with consumer := s.consumer.signal, stopper := .signalled }
  | .signalled => some { s with lock := none, stopper := .joining }
  | .joining => if s.consumer = .done then some { s with stopper := .joined } else none
  | .joined => some { s with stopper := .destroyed }
  | .destroyed => some { s with stopper := .done }
  | .done => none

def step (s : State ι δ α β) : Event ι → Option (State ι δ α β)
  | .producer i => producerStep S s i
  | .consumer => consumerStep S s
  | .stopper => stopStep s
  | .spurious => if s.consumer = .asleep then some { s with consumer := .woken } else none

/-- Every put has come to its end before the lock is destroyed. -/
def Event.InTime (s : State ι δ α β) : Event ι → Prop
  | .stopper => s.stopper = .joined → ∀ i, s.producer i = ⟨.idle, []⟩
  | .producer _ | .consumer | .spurious => True

instance [Fintype ι] [DecidableEq α] (s : State ι δ α β) (e : Event ι) : Decidable (e.InTime s) :=
  match e with
  | .stopper => inferInstanceAs (Decidable (_ → _))
  | .producer _ | .consumer | .spurious => .isTrue trivial

/-! ## What a step can do -/

/-- One step, line by line. -/
inductive Moves (s : State ι δ α β) : Event ι → State ι δ α β → Prop
  | producerLock {i : ι} {a : α} {todo : List α} (hp : s.producer i = ⟨.idle, a :: todo⟩)
      (hl : s.Free) :
      Moves s (.producer i) { s with
        lock := some (.producer i), producer := Function.update s.producer i ⟨.locked, a :: todo⟩ }
  | producerPut {i : ι} {a : α} {todo : List α} (hp : s.producer i = ⟨.locked, a :: todo⟩) :
      Moves s (.producer i) { s with
        data := S.put s.data a
        producer := Function.update s.producer i ⟨.stored, todo⟩
        ops := s.ops ++ [.put i a] }
  | producerSignal {i : ι} {todo : List α} (hp : s.producer i = ⟨.stored, todo⟩) :
      Moves s (.producer i) { s with
        producer := Function.update s.producer i ⟨.signalled, todo⟩
        consumer := s.consumer.signal }
  | producerUnlock {i : ι} {todo : List α} (hp : s.producer i = ⟨.signalled, todo⟩) :
      Moves s (.producer i) { s with
        lock := none, producer := Function.update s.producer i ⟨.idle, todo⟩ }
  | consumerLock (hc : s.consumer = .entering ∨ s.consumer = .woken) (hl : s.Free) :
      Moves s .consumer { s with lock := some .consumer, consumer := .testing }
  | consumerWait (hc : s.consumer = .testing) (hr : S.ready s.data = false) (hrun : s.run = true) :
      Moves s .consumer { s with lock := none, consumer := .asleep }
  | consumerLeave (hc : s.consumer = .testing) (hr : S.ready s.data = true ∨ s.run = false) :
      Moves s .consumer { s with consumer := .draining }
  | consumerDrain (hc : s.consumer = .draining) :
      Moves s .consumer { s with
        data := (S.drain s.data).2
        consumer := .drained
        output := s.output ++ (S.drain s.data).1
        ops := s.ops ++ [.drain] }
  | consumerUnlock (hc : s.consumer = .drained) :
      Moves s .consumer { s with lock := none, consumer := .released }
  | consumerAgain (hc : s.consumer = .released) (hrun : s.run = true) :
      Moves s .consumer { s with consumer := .entering }
  | consumerEnd (hc : s.consumer = .released) (hrun : s.run = false) :
      Moves s .consumer { s with consumer := .done }
  | stopLock (hs : s.stopper = .idle) (hl : s.Free) :
      Moves s .stopper { s with lock := some .stopper, stopper := .locked }
  | stopClear (hs : s.stopper = .locked) :
      Moves s .stopper { s with run := false, stopper := .cleared }
  | stopSignal (hs : s.stopper = .cleared) :
      Moves s .stopper { s with consumer := s.consumer.signal, stopper := .signalled }
  | stopUnlock (hs : s.stopper = .signalled) :
      Moves s .stopper { s with lock := none, stopper := .joining }
  | stopJoin (hs : s.stopper = .joining) (hc : s.consumer = .done) :
      Moves s .stopper { s with stopper := .joined }
  | stopDestroy (hs : s.stopper = .joined) : Moves s .stopper { s with stopper := .destroyed }
  | stopEnd (hs : s.stopper = .destroyed) : Moves s .stopper { s with stopper := .done }
  | spurious (hc : s.consumer = .asleep) : Moves s .spurious { s with consumer := .woken }

variable {S} {s t : State ι δ α β}

theorem producerStep_moves {i : ι} (h : producerStep S s i = some t) :
    Moves S s (.producer i) t := by
  rw [producerStep] at h
  split at h
  · next todo hp =>
    rw [Option.ite_none_right_eq_some] at h
    obtain ⟨⟨hne, hl⟩, h⟩ := h
    obtain rfl := Option.some.inj h
    cases todo with
    | nil => exact absurd hne (by simp)
    | cons a todo => exact .producerLock hp hl
  · exact absurd h (by simp)
  · next a todo hp => exact Option.some.inj h ▸ .producerPut hp
  · next todo hp => exact Option.some.inj h ▸ .producerSignal hp
  · next todo hp => exact Option.some.inj h ▸ .producerUnlock hp

theorem consumerStep_moves (h : consumerStep S s = some t) : Moves S s .consumer t := by
  cases hc : s.consumer with
  | entering | woken =>
    simp only [consumerStep, hc, Option.ite_none_right_eq_some] at h
    exact Option.some.inj h.2 ▸ .consumerLock (by simp [hc]) h.1
  | testing =>
    simp only [consumerStep, hc] at h
    split at h
    · next hwait => exact Option.some.inj h ▸ .consumerWait hc hwait.1 hwait.2
    · next hleave =>
      refine Option.some.inj h ▸ .consumerLeave hc ?_
      rwa [not_and_or, Bool.not_eq_false, Bool.not_eq_true] at hleave
  | draining =>
    simp only [consumerStep, hc, Option.some_inj] at h
    exact h ▸ .consumerDrain hc
  | drained =>
    simp only [consumerStep, hc, Option.some_inj] at h
    exact h ▸ .consumerUnlock hc
  | released =>
    simp only [consumerStep, hc, Option.some_inj] at h
    by_cases hrun : s.run = true
    · rw [if_pos hrun] at h
      exact h ▸ .consumerAgain hc hrun
    · rw [if_neg hrun] at h
      exact h ▸ .consumerEnd hc (Bool.not_eq_true _ ▸ hrun)
  | asleep | done => simp [consumerStep, hc] at h

theorem stopStep_moves (h : stopStep s = some t) : Moves S s .stopper t := by
  cases hs : s.stopper with
  | idle =>
    simp only [stopStep, hs, Option.ite_none_right_eq_some] at h
    exact Option.some.inj h.2 ▸ .stopLock hs h.1
  | locked =>
    simp only [stopStep, hs, Option.some_inj] at h
    exact h ▸ .stopClear hs
  | cleared =>
    simp only [stopStep, hs, Option.some_inj] at h
    exact h ▸ .stopSignal hs
  | signalled =>
    simp only [stopStep, hs, Option.some_inj] at h
    exact h ▸ .stopUnlock hs
  | joining =>
    simp only [stopStep, hs, Option.ite_none_right_eq_some] at h
    exact Option.some.inj h.2 ▸ .stopJoin hs h.1
  | joined =>
    simp only [stopStep, hs, Option.some_inj] at h
    exact h ▸ .stopDestroy hs
  | destroyed =>
    simp only [stopStep, hs, Option.some_inj] at h
    exact h ▸ .stopEnd hs
  | done => simp [stopStep, hs] at h

theorem step_moves {e : Event ι} (h : step S s e = some t) : Moves S s e t := by
  cases e with
  | producer i => exact producerStep_moves h
  | consumer => exact consumerStep_moves h
  | stopper => exact stopStep_moves h
  | spurious =>
    rw [step, Option.ite_none_right_eq_some] at h
    exact Option.some.inj h.2 ▸ .spurious h.1

/-! ## The invariant -/

omit [DecidableEq ι] in
/-- One operation, with what has been taken before it. -/
def Op.apply (S : Store δ α β) : List β × δ → Op ι α → List β × δ
  | (out, d), .put _ a => (out, S.put d a)
  | (out, d), .drain => (out ++ (S.drain d).1, (S.drain d).2)

omit [DecidableEq ι] in
/-- The operations one after the other. -/
def replay (S : Store δ α β) (d : δ) (ops : List (Op ι α)) : List β × δ :=
  ops.foldl (Op.apply S) ([], d)

/-- What a producer has put. -/
def putsOf (i : ι) (ops : List (Op ι α)) : List α :=
  ops.filterMap fun
    | .put j a => if j = i then some a else none
    | .drain => none

/-- The thread is between taking and releasing the lock. -/
def ProducerPc.holds : ProducerPc → Bool
  | .idle => false
  | .locked | .stored | .signalled => true

def ConsumerPc.holds : ConsumerPc → Bool
  | .testing | .draining | .drained => true
  | .entering | .asleep | .woken | .released | .done => false

def StopPc.holds : StopPc → Bool
  | .locked | .cleared | .signalled => true
  | .idle | .joining | .joined | .destroyed | .done => false

/-- The flag has not been cleared. -/
def StopPc.running : StopPc → Bool
  | .idle | .locked => true
  | .cleared | .signalled | .joining | .joined | .destroyed | .done => false

/-- The consumer has ended. -/
def StopPc.hasJoined : StopPc → Bool
  | .joined | .destroyed | .done => true
  | .idle | .locked | .cleared | .signalled | .joining => false

omit [DecidableEq ι] in
def State.holds (s : State ι δ α β) : Thread ι → Bool
  | .producer i => (s.producer i).pc.holds
  | .consumer => s.consumer.holds
  | .stopper => s.stopper.holds

/-- What every step keeps.  The lock has one holder, and nobody asks for it when it is there no
more; a consumer that is asleep while there is something to take, or after the flag has been
cleared, is about to be signalled. -/
structure Inv (S : Store δ α β) (d : δ) (items : ι → List α) (s : State ι δ α β) : Prop where
  lock : ∀ u, s.lock = some u ↔ s.holds u = true
  run : s.run = s.stopper.running
  todo : ∀ i, (s.producer i).pc = .locked → (s.producer i).todo ≠ []
  awake : s.consumer = .asleep → S.ready s.data = true → ∃ i, (s.producer i).pc = .stored
  warned : s.consumer = .asleep → s.run = false → s.stopper = .cleared
  ended : s.consumer = .done → s.run = false
  joined : s.stopper.hasJoined = true → s.consumer = .done
  destroyed : s.stopper.hasLock = false → ∀ i, s.producer i = ⟨.idle, []⟩
  kept : ∀ i, putsOf i s.ops ++ (s.producer i).todo = items i
  replay : replay S d s.ops = (s.output, s.data)

variable {d : δ} {items : ι → List α}

omit [DecidableEq ι] in
theorem holds_start (u : Thread ι) : (State.start d items : State ι δ α β).holds u = false := by
  cases u <;> rfl

theorem inv_start (d : δ) (items : ι → List α) : Inv S d items (.start d items) where
  lock u := iff_of_false (by simp [State.start]) (by rw [holds_start]; decide)
  run := rfl
  todo i h := nomatch h
  awake h := nomatch h
  warned h := nomatch h
  ended h := nomatch h
  joined h := nomatch h
  destroyed h := nomatch h
  kept i := rfl
  replay := rfl

/-- Who asks for the lock finds it there, and free. -/
theorem Inv.lock_of_free (h : Inv S d items s) (hl : s.Free)
    (hask : (∃ i, s.producer i ≠ ⟨.idle, []⟩) ∨ s.consumer ≠ .done) : s.lock = none := by
  refine Option.isNone_iff_eq_none.1 (hl ?_)
  by_contra hgone
  have hgone := Bool.eq_false_iff.2 hgone
  rcases hask with ⟨i, hi⟩ | hc
  · exact hi (h.destroyed hgone i)
  · refine hc (h.joined ?_)
    cases hs : s.stopper with
    | destroyed => rfl
    | done => rfl
    | _ => rw [hs] at hgone; exact nomatch hgone

omit [DecidableEq ι] in
/-- The lock is taken. -/
theorem lock_taken {u : Thread ι} (h : ∀ v, s.lock = some v ↔ s.holds v = true)
    (hl : s.lock = none) (ht : t.lock = some u) (hu : t.holds u = true)
    (hother : ∀ v, v ≠ u → t.holds v = s.holds v) (v : Thread ι) :
    t.lock = some v ↔ t.holds v = true := by
  rw [ht, Option.some_inj]
  by_cases hv : v = u
  · exact iff_of_true hv.symm (hv ▸ hu)
  · rw [hother v hv, ← h v, hl]
    exact iff_of_false (Ne.symm hv) (by simp)

omit [DecidableEq ι] in
/-- The lock is released. -/
theorem lock_released {u : Thread ι} (h : ∀ v, s.lock = some v ↔ s.holds v = true)
    (hs : s.holds u = true) (ht : t.lock = none) (hu : t.holds u = false)
    (hother : ∀ v, v ≠ u → t.holds v = s.holds v) (v : Thread ι) :
    t.lock = some v ↔ t.holds v = true := by
  rw [ht]
  refine iff_of_false (by simp) ?_
  by_cases hv : v = u
  · rw [hv, hu]
    decide
  · rw [hother v hv, ← h v, (h u).2 hs, Option.some_inj]
    exact Ne.symm hv

omit [DecidableEq ι] in
/-- The lock is left as it is. -/
theorem lock_kept (h : ∀ v, s.lock = some v ↔ s.holds v = true) (ht : t.lock = s.lock)
    (hall : ∀ v, t.holds v = s.holds v) (v : Thread ι) :
    t.lock = some v ↔ t.holds v = true := by
  rw [ht, hall, h]

/-- What holds of the producer that moves and of the others holds of all. -/
theorem forall_update {P : ι → Producer α → Prop} {f : ι → Producer α} {i : ι} {p : Producer α}
    (hi : P i p) (hother : ∀ j, j ≠ i → P j (f j)) (j : ι) : P j (Function.update f i p j) := by
  by_cases hj : j = i
  · rw [hj, Function.update_self]
    exact hi
  · rw [Function.update_of_ne hj]
    exact hother j hj

theorem holds_self {i : ι} {p : Producer α} {b : Bool} (hp : p.pc.holds = b)
    (ht : t.producer = Function.update s.producer i p) : t.holds (.producer i) = b := by
  rw [State.holds, ht, Function.update_self, hp]

/-- Another producer has stored something still. -/
theorem exists_stored {f : ι → Producer α} {i : ι} (hi : (f i).pc ≠ .stored) (p : Producer α)
    (h : ∃ j, (f j).pc = .stored) : ∃ j, (Function.update f i p j).pc = .stored := by
  obtain ⟨j, hj⟩ := h
  have hne : j ≠ i := fun hji ↦ hi (hji ▸ hj)
  exact ⟨j, by rwa [Function.update_of_ne hne]⟩

/-- A producer that moves makes no difference to who else holds the lock. -/
theorem holds_of_ne {i : ι} {p : Producer α} {v : Thread ι}
    (ht : t.producer = Function.update s.producer i p) (hc : t.consumer.holds = s.consumer.holds)
    (hs : t.stopper = s.stopper) (hv : v ≠ .producer i) : t.holds v = s.holds v := by
  cases v with
  | producer j =>
    have hj : j ≠ i := fun hji ↦ hv (congrArg Thread.producer hji)
    rw [State.holds, ht, Function.update_of_ne hj, State.holds]
  | consumer => exact hc
  | stopper => exact congrArg StopPc.holds hs

/-- Nor does it to the lock, if it goes on holding it. -/
theorem holds_eq {i : ι} {p : Producer α} (hp : p.pc.holds = (s.producer i).pc.holds)
    (ht : t.producer = Function.update s.producer i p) (hc : t.consumer.holds = s.consumer.holds)
    (hs : t.stopper = s.stopper) (v : Thread ι) : t.holds v = s.holds v := by
  by_cases hv : v = .producer i
  · rw [hv, holds_self hp ht, State.holds]
  · exact holds_of_ne ht hc hs hv

omit [DecidableEq ι] in
theorem replay_concat (ops : List (Op ι α)) (op : Op ι α) :
    replay S d (ops ++ [op]) = op.apply S (replay S d ops) := by
  rw [replay, List.foldl_append]
  rfl

theorem putsOf_concat (i : ι) (ops : List (Op ι α)) (op : Op ι α) :
    putsOf i (ops ++ [op]) = putsOf i ops ++ putsOf i [op] :=
  List.filterMap_append

namespace ConsumerPc

variable {c : ConsumerPc}

theorem signal_ne_asleep : c.signal ≠ .asleep := by cases c <;> decide

theorem signal_eq_done : c.signal = .done ↔ c = .done := by cases c <;> decide

theorem holds_signal : c.signal.holds = c.holds := by cases c <;> rfl

end ConsumerPc

theorem Inv.todo_update (h : Inv S d items s) {i : ι} {p : Producer α}
    (hp : p.pc = .locked → p.todo ≠ []) (j : ι) :
    (Function.update s.producer i p j).pc = .locked →
      (Function.update s.producer i p j).todo ≠ [] :=
  forall_update (P := fun _ p ↦ p.pc = .locked → p.todo ≠ []) hp (fun j _ ↦ h.todo j) j

/-- A producer that is at work finds the lock there. -/
theorem Inv.destroyed_update (h : Inv S d items s) {i : ι} (hi : s.producer i ≠ ⟨.idle, []⟩)
    {p : Producer α} (hgone : s.stopper.hasLock = false) (j : ι) :
    Function.update s.producer i p j = ⟨.idle, []⟩ :=
  absurd (h.destroyed hgone i) hi

/-- A step of a producer keeps the invariant. -/
theorem Inv.producer (h : Inv S d items s) {i : ι} (hm : Moves S s (.producer i) t) :
    Inv S d items t := by
  have hkept := h.kept i
  cases hm with
  | producerLock hp hl =>
    rw [hp] at hkept
    exact { h with
      lock := lock_taken h.lock (h.lock_of_free hl (.inl ⟨i, by simp [hp]⟩)) rfl
        (holds_self rfl rfl) fun _ ↦ holds_of_ne rfl rfl rfl
      destroyed := h.destroyed_update (by simp [hp])
      todo := h.todo_update (by simp)
      awake := fun hc hr ↦ exists_stored (by simp [hp]) _ (h.awake hc hr)
      kept := forall_update (P := fun j p ↦ putsOf j s.ops ++ p.todo = items j) hkept
        fun j _ ↦ h.kept j }
  | @producerPut _ a todo hp =>
    rw [hp] at hkept
    exact {
      lock := lock_kept h.lock rfl (holds_eq (by rw [hp]; rfl) rfl rfl rfl)
      run := h.run
      todo := h.todo_update (by simp)
      awake := fun _ _ ↦ ⟨i, by simp⟩
      warned := h.warned
      ended := h.ended
      joined := h.joined
      destroyed := h.destroyed_update (by simp [hp])
      kept := forall_update
        (P := fun j p ↦ putsOf j (s.ops ++ [.put i a]) ++ p.todo = items j)
        (by simpa [putsOf_concat, putsOf] using hkept)
        fun j hj ↦ by simpa [putsOf_concat, putsOf, Ne.symm hj] using h.kept j
      replay := by rw [replay_concat, h.replay]; rfl }
  | producerSignal hp =>
    rw [hp] at hkept
    exact {
      lock := lock_kept h.lock rfl (holds_eq (by rw [hp]; rfl) rfl ConsumerPc.holds_signal rfl)
      run := h.run
      todo := h.todo_update (by simp)
      awake := fun hc ↦ absurd hc ConsumerPc.signal_ne_asleep
      warned := fun hc ↦ absurd hc ConsumerPc.signal_ne_asleep
      ended := fun hc ↦ h.ended (ConsumerPc.signal_eq_done.1 hc)
      joined := fun hs ↦ ConsumerPc.signal_eq_done.2 (h.joined hs)
      destroyed := h.destroyed_update (by simp [hp])
      kept := forall_update (P := fun j p ↦ putsOf j s.ops ++ p.todo = items j) hkept
        fun j _ ↦ h.kept j
      replay := h.replay }
  | producerUnlock hp =>
    rw [hp] at hkept
    exact { h with
      lock := lock_released h.lock (by rw [State.holds, hp]; rfl) rfl (holds_self rfl rfl) fun _ ↦
        holds_of_ne rfl rfl rfl
      destroyed := h.destroyed_update (by simp [hp])
      todo := h.todo_update (by simp)
      awake := fun hc hr ↦ exists_stored (by simp [hp]) _ (h.awake hc hr)
      kept := forall_update (P := fun j p ↦ putsOf j s.ops ++ p.todo = items j) hkept
        fun j _ ↦ h.kept j }

section

variable {data : δ} {run : Bool} {lock : Option (Thread ι)} {output : List β}
  {ops : List (Op ι α)} {v : Thread ι}

omit [DecidableEq ι] in
theorem holds_of_ne_consumer {c : ConsumerPc} (hv : v ≠ .consumer) :
    State.holds ⟨data, run, lock, s.producer, c, s.stopper, output, ops⟩ v = s.holds v := by
  cases v with
  | consumer => exact absurd rfl hv
  | _ => rfl

omit [DecidableEq ι] in
theorem holds_of_ne_stopper {p : StopPc} (hv : v ≠ .stopper) :
    State.holds ⟨data, run, lock, s.producer, s.consumer, p, output, ops⟩ v = s.holds v := by
  cases v with
  | stopper => exact absurd rfl hv
  | _ => rfl

end

omit [DecidableEq ι] in
theorem holds_eq_of_holds (hp : t.producer = s.producer)
    (hc : t.consumer.holds = s.consumer.holds) (hs : t.stopper.holds = s.stopper.holds)
    (v : Thread ι) : t.holds v = s.holds v := by
  cases v with
  | producer j => rw [State.holds, hp, State.holds]
  | consumer => exact hc
  | stopper => exact hs

/-- A step of the consumer keeps the invariant. -/
theorem Inv.consumer (h : Inv S d items s) (hm : Moves S s .consumer t) : Inv S d items t := by
  have hjoined (hne : s.consumer ≠ .done) : ¬ s.stopper.hasJoined = true := mt h.joined hne
  cases hm with
  | consumerLock hc hl =>
    have hne : s.consumer ≠ .done := by rcases hc with hc | hc <;> simp [hc]
    exact { h with
      lock := lock_taken h.lock (h.lock_of_free hl (.inr hne)) rfl rfl fun _ ↦ holds_of_ne_consumer
      awake := nofun
      warned := nofun
      ended := nofun
      joined := fun hs ↦ absurd hs (hjoined hne) }
  | consumerWait hc hr hrun =>
    exact { h with
      lock := lock_released (u := .consumer) h.lock (by rw [State.holds, hc]; rfl) rfl rfl fun _ ↦
        holds_of_ne_consumer
      awake := fun _ hready ↦ by rw [hr] at hready; exact nomatch hready
      warned := fun _ hstop ↦ by rw [hrun] at hstop; exact nomatch hstop
      ended := nofun
      joined := fun hs ↦ absurd hs (hjoined (by simp [hc])) }
  | consumerLeave hc hr =>
    exact { h with
      lock := lock_kept h.lock rfl (holds_eq_of_holds rfl (by rw [hc]; rfl) rfl)
      awake := nofun
      warned := nofun
      ended := nofun
      joined := fun hs ↦ absurd hs (hjoined (by simp [hc])) }
  | consumerDrain hc =>
    exact { h with
      lock := lock_kept h.lock rfl (holds_eq_of_holds rfl (by rw [hc]; rfl) rfl)
      awake := nofun
      warned := nofun
      ended := nofun
      joined := fun hs ↦ absurd hs (hjoined (by simp [hc]))
      kept := fun i ↦ by simpa [putsOf_concat, putsOf] using h.kept i
      replay := by rw [replay_concat, h.replay]; rfl }
  | consumerUnlock hc =>
    exact { h with
      lock := lock_released (u := .consumer) h.lock (by rw [State.holds, hc]; rfl) rfl rfl fun _ ↦
        holds_of_ne_consumer
      awake := nofun
      warned := nofun
      ended := nofun
      joined := fun hs ↦ absurd hs (hjoined (by simp [hc])) }
  | consumerAgain hc hrun =>
    exact { h with
      lock := lock_kept h.lock rfl (holds_eq_of_holds rfl (by rw [hc]; rfl) rfl)
      awake := nofun
      warned := nofun
      ended := nofun
      joined := fun hs ↦ absurd hs (hjoined (by simp [hc])) }
  | consumerEnd hc hrun =>
    exact { h with
      lock := lock_kept h.lock rfl (holds_eq_of_holds rfl (by rw [hc]; rfl) rfl)
      awake := nofun
      warned := nofun
      ended := fun _ ↦ hrun
      joined := fun _ ↦ rfl }

/-- A step of the thread that ends the consumer keeps the invariant. -/
theorem Inv.stopper (h : Inv S d items s) (hin : Event.InTime s .stopper)
    (hm : Moves S s .stopper t) : Inv S d items t := by
  cases hm with
  | stopLock hs hl =>
    exact { h with
      lock := lock_taken h.lock (Option.isNone_iff_eq_none.1 (hl (by rw [hs]; rfl))) rfl rfl
        fun _ ↦ holds_of_ne_stopper
      run := by rw [h.run, hs]; rfl
      warned := fun _ hrun ↦ by rw [h.run, hs] at hrun; exact nomatch hrun
      joined := nofun
      destroyed := nofun }
  | stopClear hs =>
    exact { h with
      lock := lock_kept h.lock rfl (holds_eq_of_holds rfl rfl (by rw [hs]; rfl))
      run := rfl
      warned := fun _ _ ↦ rfl
      ended := fun _ ↦ rfl
      joined := nofun
      destroyed := nofun }
  | stopSignal hs =>
    exact { h with
      lock := lock_kept h.lock rfl
        (holds_eq_of_holds rfl ConsumerPc.holds_signal (by rw [hs]; rfl))
      run := by rw [h.run, hs]; rfl
      awake := fun hc ↦ absurd hc ConsumerPc.signal_ne_asleep
      warned := fun hc ↦ absurd hc ConsumerPc.signal_ne_asleep
      ended := fun hc ↦ h.ended (ConsumerPc.signal_eq_done.1 hc)
      joined := nofun
      destroyed := nofun }
  | stopUnlock hs =>
    exact { h with
      lock := lock_released (u := .stopper) h.lock (by rw [State.holds, hs]; rfl) rfl rfl fun _ ↦
        holds_of_ne_stopper
      run := by rw [h.run, hs]; rfl
      warned := fun hc hrun ↦ absurd (h.warned hc hrun) (by simp [hs])
      joined := nofun
      destroyed := nofun }
  | stopJoin hs hc =>
    exact { h with
      lock := lock_kept h.lock rfl (holds_eq_of_holds rfl rfl (by rw [hs]; rfl))
      run := by rw [h.run, hs]; rfl
      warned := fun hasleep ↦ absurd (hc.symm.trans hasleep) (by decide)
      joined := fun _ ↦ hc
      destroyed := nofun }
  | stopDestroy hs =>
    have hdone : s.consumer = .done := h.joined (by rw [hs]; rfl)
    exact { h with
      lock := lock_kept h.lock rfl (holds_eq_of_holds rfl rfl (by rw [hs]; rfl))
      run := by rw [h.run, hs]; rfl
      warned := fun hasleep ↦ absurd (hdone.symm.trans hasleep) (by decide)
      joined := fun _ ↦ hdone
      destroyed := fun _ ↦ hin hs }
  | stopEnd hs =>
    have hdone : s.consumer = .done := h.joined (by rw [hs]; rfl)
    exact { h with
      lock := lock_kept h.lock rfl (holds_eq_of_holds rfl rfl (by rw [hs]; rfl))
      run := by rw [h.run, hs]; rfl
      warned := fun hasleep ↦ absurd (hdone.symm.trans hasleep) (by decide)
      joined := fun _ ↦ hdone
      destroyed := fun _ ↦ h.destroyed (by rw [hs]; rfl) }

/-- **Every step keeps the invariant**, if the lock is not destroyed too early. -/
theorem Inv.step (h : Inv S d items s) {e : Event ι} (hin : e.InTime s)
    (ht : step S s e = some t) : Inv S d items t := by
  have hm := step_moves ht
  cases e with
  | producer i => exact h.producer hm
  | consumer => exact h.consumer hm
  | stopper => exact h.stopper hin hm
  | spurious =>
    cases hm with
    | spurious hc =>
      exact { h with
        lock := lock_kept h.lock rfl (holds_eq_of_holds rfl (by rw [hc]; rfl) rfl)
        awake := nofun
        warned := nofun
        ended := nofun
        joined := fun hs ↦ absurd (hc.symm.trans (h.joined hs)) (by decide) }

theorem Inv.of_run (h : Inv S d items s) {es : List (Event ι)}
    (hin : Guarded (Monitor.step S) (fun s e ↦ e.InTime s) s es)
    (ht : Transition.run (Monitor.step S) s es = some t) : Inv S d items t :=
  (always_of_guarded (Inv S d items) (fun _ h ↦ h) (fun _ _ _ h hin ht ↦ h.step hin ht) es h
    hin).of_run ht

/-! ## Where nothing moves -/

/-- A producer with the lock can go on. -/
theorem Inv.producerStep_isSome (h : Inv S d items s) {i : ι} (hp : (s.producer i).pc ≠ .idle) :
    (producerStep S s i).isSome := by
  have htodo := h.todo i
  rw [producerStep]
  split
  · next heq => exact absurd (congrArg Producer.pc heq) hp
  · next heq =>
    rw [heq] at htodo
    exact absurd rfl (htodo rfl)
  all_goals rfl

/-- So can one without it, if it has something to put and the lock is free. -/
theorem producerStep_isSome_of_todo {i : ι}
    (htodo : (s.producer i).todo ≠ []) (hl : s.lock = none) : (producerStep S s i).isSome := by
  rw [producerStep]
  split
  · next todo heq =>
    rw [heq] at htodo
    rw [if_pos ⟨by simpa using htodo, State.free_of_lock hl⟩]
    rfl
  · next heq =>
    rw [heq] at htodo
    exact absurd rfl htodo
  all_goals rfl

omit [DecidableEq ι] in
theorem consumerStep_isSome (hc : s.consumer.holds = true) : (consumerStep S s).isSome := by
  cases hpc : s.consumer with
  | testing => rw [consumerStep, hpc]; dsimp only; split <;> rfl
  | draining | drained => rw [consumerStep, hpc]; rfl
  | _ => rw [hpc] at hc; exact nomatch hc

omit [DecidableEq ι] in
theorem stopStep_isSome (hs : s.stopper.holds = true) : (stopStep s).isSome := by
  cases hpc : s.stopper with
  | locked | cleared | signalled => rw [stopStep, hpc]; rfl
  | _ => rw [hpc] at hs; exact nomatch hs

/-- Where no thread can move that may hold the lock, the lock is free, and the producers have put
everything. -/
theorem Inv.lock_free (h : Inv S d items s) (hprod : ∀ i, producerStep S s i = none)
    (hcons : consumerStep S s = none) (hstop : s.stopper.holds = false) :
    s.lock = none ∧ ∀ i, s.producer i = ⟨.idle, []⟩ := by
  have hidle (i : ι) : (s.producer i).pc = .idle := by
    by_contra hne
    have hsome := h.producerStep_isSome hne
    rw [hprod i] at hsome
    exact nomatch hsome
  have hfree : s.consumer.holds ≠ true := fun hc ↦ by
    have hsome := consumerStep_isSome (S := S) hc
    rw [hcons] at hsome
    exact nomatch hsome
  have hl : s.lock = none := by
    cases hlock : s.lock with
    | none => rfl
    | some u =>
      have hu := (h.lock u).1 hlock
      cases u with
      | producer i => rw [State.holds, hidle i] at hu; exact nomatch hu
      | consumer => exact absurd hu hfree
      | stopper => rw [State.holds, hstop] at hu; exact nomatch hu
  refine ⟨hl, fun i ↦ ?_⟩
  have htodo : (s.producer i).todo = [] := by
    by_contra hne
    have hsome := producerStep_isSome_of_todo (S := S) hne hl
    rw [hprod i] at hsome
    exact nomatch hsome
  rw [← hidle i, ← htodo]

omit [DecidableEq ι] in
/-- A consumer that cannot move, though the lock is free, is asleep or at its end. -/
theorem consumer_of_none (hcons : consumerStep S s = none) (hl : s.lock = none) :
    s.consumer = .asleep ∨ s.consumer = .done := by
  cases hc : s.consumer with
  | asleep => exact Or.inl rfl
  | done => exact Or.inr rfl
  | testing | draining | drained =>
    have hsome := consumerStep_isSome (S := S) (s := s) (by rw [hc]; rfl)
    rw [hcons] at hsome
    exact nomatch hsome
  | entering | woken =>
    exact absurd (State.free_of_lock hl) (by simpa [consumerStep, hc] using hcons)
  | released => simp [consumerStep, hc] at hcons

/-- **Where neither the producers nor the consumer can move** before the end has been asked for,
everything has been put, nothing is left to take, and the consumer is asleep. -/
theorem Inv.quiet (h : Inv S d items s) (hprod : ∀ i, producerStep S s i = none)
    (hcons : consumerStep S s = none) (hstop : s.stopper = .idle) :
    (∀ i, s.producer i = ⟨.idle, []⟩) ∧ s.consumer = .asleep ∧ S.ready s.data = false := by
  obtain ⟨hl, hput⟩ := h.lock_free hprod hcons (by rw [hstop]; rfl)
  have hrun : s.run = true := by rw [h.run, hstop]; rfl
  have hasleep : s.consumer = .asleep :=
    (consumer_of_none hcons hl).resolve_right fun hdone ↦ by
      rw [h.ended hdone] at hrun
      exact nomatch hrun
  refine ⟨hput, hasleep, ?_⟩
  by_contra hready
  obtain ⟨i, hi⟩ := h.awake hasleep (Bool.not_eq_false _ ▸ hready)
  rw [hput i] at hi
  exact nomatch hi

/-- **Where no thread can move** all of them have come to their end. -/
theorem Inv.ended_of_none (h : Inv S d items s) (hprod : ∀ i, producerStep S s i = none)
    (hcons : consumerStep S s = none) (hstop : stopStep s = none) :
    (∀ i, s.producer i = ⟨.idle, []⟩) ∧ s.consumer = .done ∧ s.stopper = .done := by
  have hholds : s.stopper.holds = false := by
    by_contra hne
    have hsome := stopStep_isSome (Bool.not_eq_false _ ▸ hne)
    rw [hstop] at hsome
    exact nomatch hsome
  obtain ⟨hl, hput⟩ := h.lock_free hprod hcons hholds
  have hjoin : s.stopper = .joining ∨ s.stopper = .done := by
    cases hs : s.stopper with
    | joining => exact Or.inl rfl
    | done => exact Or.inr rfl
    | idle => exact absurd (State.free_of_lock hl) (by simpa [stopStep, hs] using hstop)
    | locked | cleared | signalled => rw [hs] at hholds; exact nomatch hholds
    | joined | destroyed => simp [stopStep, hs] at hstop
  have hrun : s.run = false := by rw [h.run]; rcases hjoin with hs | hs <;> rw [hs] <;> rfl
  have hdone : s.consumer = .done :=
    (consumer_of_none hcons hl).resolve_left fun hasleep ↦ by
      have hs := h.warned hasleep hrun
      rw [hs] at hholds
      exact nomatch hholds
  refine ⟨hput, hdone, hjoin.resolve_left fun hs ↦ ?_⟩
  simp [stopStep, hs, hdone] at hstop

/-! ## How long it takes -/

omit [DecidableEq ι] in
/-- What a producer has still to do, where a put counts more than one step because it gives the
consumer something to do, and a signal because it wakes it up. -/
def Producer.cost (p : Producer α) : ℕ :=
  match p.pc with
  | .idle => 16 * p.todo.length
  | .locked => 16 * p.todo.length - 1
  | .stored => 16 * p.todo.length + 9
  | .signalled => 16 * p.todo.length + 1

/-- What the consumer does before it falls asleep or comes to its end, if nothing happens
meanwhile. -/
def ConsumerPc.cost (ready run : Bool) : ConsumerPc → ℕ
  | .asleep | .done => 0
  | .testing => if ready || !run then 6 else 1
  | .entering | .woken => if ready || !run then 7 else 2
  | .released => if ready && run then 8 else 3
  | .drained => if ready && run then 9 else 4
  | .draining => 5

def StopPc.cost : StopPc → ℕ
  | .idle => 19
  | .locked => 18
  | .cleared => 12
  | .signalled => 4
  | .joining => 3
  | .joined => 2
  | .destroyed => 1
  | .done => 0

namespace ConsumerPc

variable (ready run : Bool) (c : ConsumerPc)

theorem cost_signal : c.signal.cost ready run ≤ c.cost ready run + 7 := by
  cases c <;> cases ready <;> cases run <;> decide

theorem cost_put (ready' : Bool) : c.cost ready' run ≤ c.cost ready run + 5 := by
  cases c <;> cases ready <;> cases ready' <;> cases run <;> decide

theorem cost_clear : c.cost ready false ≤ c.cost ready run + 5 := by
  cases c <;> cases ready <;> cases run <;> decide

end ConsumerPc

variable [Fintype ι]

/-- What all of them have still to do. -/
def cost (S : Store δ α β) (s : State ι δ α β) : ℕ :=
  ∑ i, (s.producer i).cost + s.consumer.cost (S.ready s.data) s.run + s.stopper.cost

/-- **Every step costs something**, but for a spurious wake-up. -/
theorem cost_lt_of_moves {e : Event ι} (hm : Moves S s e t) (he : e ≠ .spurious) :
    cost S t < cost S s := by
  cases hm with
  | @producerLock i a todo hp hl =>
    have hsum := Routing.sum_update s.producer Producer.cost i ⟨.locked, a :: todo⟩
    have hold : (s.producer i).cost = 16 * (todo.length + 1) := by rw [hp]; rfl
    have hnew : Producer.cost ⟨.locked, a :: todo⟩ = 16 * (todo.length + 1) - 1 := rfl
    simp only [cost]
    omega
  | @producerPut i a todo hp =>
    have hsum := Routing.sum_update s.producer Producer.cost i ⟨.stored, todo⟩
    have hput := s.consumer.cost_put (S.ready s.data) s.run (S.ready (S.put s.data a))
    have hold : (s.producer i).cost = 16 * (todo.length + 1) - 1 := by rw [hp]; rfl
    have hnew : Producer.cost ⟨.stored, todo⟩ = 16 * todo.length + 9 := rfl
    simp only [cost]
    omega
  | @producerSignal i todo hp =>
    have hsum := Routing.sum_update s.producer Producer.cost i ⟨.signalled, todo⟩
    have hsignal := s.consumer.cost_signal (S.ready s.data) s.run
    have hold : (s.producer i).cost = 16 * todo.length + 9 := by rw [hp]; rfl
    have hnew : Producer.cost ⟨.signalled, todo⟩ = 16 * todo.length + 1 := rfl
    simp only [cost]
    omega
  | @producerUnlock i todo hp =>
    have hsum := Routing.sum_update s.producer Producer.cost i ⟨.idle, todo⟩
    have hold : (s.producer i).cost = 16 * todo.length + 1 := by rw [hp]; rfl
    have hnew : Producer.cost ⟨.idle, todo⟩ = 16 * todo.length := rfl
    simp only [cost]
    omega
  | consumerLock hc hl =>
    simp only [cost]
    rcases hc with hc | hc <;> rw [hc] <;> cases S.ready s.data <;> cases s.run <;>
      simp [ConsumerPc.cost]
  | consumerWait hc hr hrun => simp [cost, hc, hr, hrun, ConsumerPc.cost]
  | consumerLeave hc hr => rcases hr with hr | hr <;> simp [cost, hc, hr, ConsumerPc.cost]
  | consumerDrain hc => simp [cost, hc, S.ready_drain, ConsumerPc.cost]
  | consumerUnlock hc =>
    simp only [cost, hc]
    cases S.ready s.data <;> cases s.run <;> simp [ConsumerPc.cost]
  | consumerAgain hc hrun =>
    simp only [cost, hc, hrun]
    cases S.ready s.data <;> simp [ConsumerPc.cost]
  | consumerEnd hc hrun => simp [cost, hc, hrun, ConsumerPc.cost]
  | stopLock hs hl => simp [cost, hs, StopPc.cost]
  | stopClear hs =>
    have hclear := s.consumer.cost_clear (S.ready s.data) s.run
    simp only [cost, hs, StopPc.cost]
    omega
  | stopSignal hs =>
    have hsignal := s.consumer.cost_signal (S.ready s.data) s.run
    simp only [cost, hs, StopPc.cost]
    omega
  | stopUnlock hs => simp [cost, hs, StopPc.cost]
  | stopJoin hs hc => simp [cost, hs, StopPc.cost]
  | stopDestroy hs => simp [cost, hs, StopPc.cost]
  | stopEnd hs => simp [cost, hs, StopPc.cost]
  | spurious hc => exact absurd rfl he

theorem cost_le_of_spurious (hm : Moves S s .spurious t) : cost S t ≤ cost S s + 7 := by
  cases hm with
  | spurious hc =>
    have hwoken : ConsumerPc.woken.cost (S.ready s.data) s.run ≤
        ConsumerPc.asleep.cost (S.ready s.data) s.run + 7 := ConsumerPc.cost_signal _ _ .asleep
    simp only [cost, hc]
    omega

/-- **Every run is short**: it has no more steps than the threads have to do, and eight for each
spurious wake-up. -/
theorem length_le {es : List (Event ι)} (h : run (step S) s es = some t) :
    es.length + cost S t ≤ cost S s + 8 * es.count .spurious := by
  induction es generalizing s with
  | nil =>
    obtain rfl := Option.some.inj h
    simp
  | cons e es ih =>
    rw [run] at h
    split at h
    · next u hu =>
      have hrest := ih h
      have hm := step_moves hu
      rw [List.length_cons, List.count_cons]
      by_cases he : e = .spurious
      · subst he
        have hone := cost_le_of_spurious hm
        simp only [beq_self_eq_true, if_true]
        omega
      · have hone := cost_lt_of_moves hm he
        rw [if_neg (by simpa using he)]
        omega
    · exact absurd h (by simp)

omit [DecidableEq ι] in
/-- What the program costs from its beginning. -/
theorem cost_start (S : Store δ α β) (d : δ) (items : ι → List α) :
    cost S (.start d items) ≤ 16 * ∑ i, (items i).length + 26 := by
  have hconsumer : ConsumerPc.entering.cost (S.ready d) true ≤ 7 := by
    cases S.ready d <;> decide
  simp only [cost, State.start, Producer.cost, StopPc.cost, ← Finset.mul_sum]
  omega

end Step

end Monitor
