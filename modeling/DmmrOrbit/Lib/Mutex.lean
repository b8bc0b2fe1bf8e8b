import Mathlib.Logic.Function.Basic

/-!
# Routines that take mutexes

A routine of one thread that takes and releases mutexes which are not recursive.  It runs in the
state of those it holds, and there are three ways in which it may not return: it takes one that it
holds, it releases one that it does not hold, or it faults on something else.

`Disciplined f` says that `f`, which holds none when it is called, returns and holds none then.  The
rules evaluate a routine step by step: `lock_bind` and `unlock_bind` for the
mutexes, `bind_of_ok` and `bind_of_error` for a call whose outcome is known.
-/

set_option autoImplicit false

namespace Mutex

universe u

/-- Why a routine did not return. -/
inductive Failure (μ : Type u)
  | relock (m : μ)
  | notHeld (m : μ)
  | fault

/-- A routine with its held mutexes as its state. -/
abbrev Routine (μ : Type u) (α : Type u) := StateT (μ → Bool) (Except (Failure μ)) α

section

variable {μ : Type} [DecidableEq μ] {α β : Type}

def lock (m : μ) : Routine μ Unit := fun held ↦
  if held m then .error (.relock m) else .ok ((), Function.update held m true)

def unlock (m : μ) : Routine μ Unit := fun held ↦
  if held m then .ok ((), Function.update held m false) else .error (.notHeld m)

omit [DecidableEq μ] in
/-- Whatever else ends the program. -/
def fault : Routine μ α := fun _ ↦ .error .fault

omit [DecidableEq μ] in
/-- The routine without what it returns. -/
def call (f : Routine μ α) : Routine μ Unit := do
  let _ ← f
  return ()

/-- No mutex is held. -/
def free : μ → Bool := fun _ ↦ false

/-- The routine takes and releases as it should, returns, and leaves none behind. -/
def Disciplined (f : Routine μ α) : Prop := ∃ a, f free = .ok (a, free)

variable {m : μ} {held held' : μ → Bool}

omit [DecidableEq μ] in
theorem bind_of_ok {f : Routine μ α} {a : α} (h : f held = .ok (a, held'))
    (g : α → Routine μ β) : (f >>= g) held = g a held' := by
  show (f held >>= fun p ↦ g p.1 p.2) = _
  rw [h]
  rfl

omit [DecidableEq μ] in
theorem not_disciplined {f : Routine μ α} {e : Failure μ} (h : f free = .error e) :
    ¬ Disciplined f := by
  rintro ⟨a, ha⟩
  rw [h] at ha
  cases ha

omit [DecidableEq μ] in
theorem bind_of_error {f : Routine μ α} {e : Failure μ} (h : f held = .error e)
    (g : α → Routine μ β) : (f >>= g) held = .error e := by
  show (f held >>= fun p ↦ g p.1 p.2) = _
  rw [h]
  rfl

omit [DecidableEq μ] in
theorem disciplined_pure (a : α) : Disciplined (pure a : Routine μ α) := ⟨a, rfl⟩

omit [DecidableEq μ] in
/-- What it returns does not matter. -/
theorem disciplined_call {f : Routine μ α} : Disciplined (call f) ↔ Disciplined f := by
  rw [call]
  constructor
  · rintro ⟨u, hu⟩
    cases hf : f free with
    | error e =>
      rw [bind_of_error hf] at hu
      cases hu
    | ok r =>
      obtain ⟨a, held⟩ := r
      rw [bind_of_ok hf] at hu
      obtain rfl : held = free := congrArg Prod.snd (Except.ok.inj hu)
      exact ⟨a, hf⟩
  · rintro ⟨a, ha⟩
    exact ⟨(), bind_of_ok ha _⟩

theorem lock_of_free (h : held m = false) :
    lock m held = .ok ((), Function.update held m true) :=
  if_neg (by simp [h])

theorem lock_of_held (h : held m = true) : lock m held = .error (.relock m) := if_pos h

theorem unlock_of_held (h : held m = true) :
    unlock m held = .ok ((), Function.update held m false) :=
  if_pos h

theorem unlock_of_free (h : held m = false) : unlock m held = .error (.notHeld m) :=
  if_neg (by simp [h])

theorem lock_bind (h : held m = false) (f : Unit → Routine μ β) :
    (lock m >>= f) held = f () (Function.update held m true) :=
  bind_of_ok (lock_of_free h) f

theorem unlock_bind (h : held m = true) (f : Unit → Routine μ β) :
    (unlock m >>= f) held = f () (Function.update held m false) :=
  bind_of_ok (unlock_of_held h) f

/-- Taking a mutex and releasing it leaves things as they were. -/
theorem update_lock_unlock (h : held m = false) :
    Function.update (Function.update held m true) m false = held := by
  rw [Function.update_idem, ← h, Function.update_eq_self]

end

end Mutex
