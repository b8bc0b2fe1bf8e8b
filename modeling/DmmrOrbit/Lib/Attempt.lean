import Mathlib.Data.List.Basic

/-!
# Calls in a row, each with an exit

A function that makes one call after the other, looks at each answer and leaves through a label if
it is not the one it needs.  `Run` is what such a function did — its calls, in order, and its
result — and `attempt` is one call with its exit, so that the text of the function is a chain of
attempts that ends in `finish`.

The rules go through the chain from its start: `result_attempt` for what holds at every exit,
`result_attempt_iff` for what holds only at the last, and `mem_calls_attempt_iff` for a call that is
made nowhere but further down.
-/

set_option autoImplicit false

namespace Attempt

variable {C R : Type}

/-- What a function called and what came of it. -/
structure Run (C R : Type) where
  calls : List C
  result : R

/-- Nothing more is called. -/
def finish (result : R) : Run C R := ⟨[], result⟩

/-- A call whose answer is not looked at. -/
def call (c : C) (rest : Run C R) : Run C R := ⟨c :: rest.calls, rest.result⟩

/-- The result, as the caller passes it on. -/
def Run.map {S : Type} (f : R → S) (r : Run C R) : Run C S := ⟨r.calls, f r.result⟩

/-- A call, and the exit if its answer is not `ok`. -/
def attempt (c : C) (ok : Prop) [Decidable ok] (label rest : Run C R) : Run C R :=
  call c (if ok then rest else label)

section

variable {c x : C} {ok : Prop} [Decidable ok] {label rest : Run C R}

@[simp] theorem calls_finish (result : R) : (finish result : Run C R).calls = [] := rfl

@[simp] theorem result_finish (result : R) : (finish result : Run C R).result = result := rfl

@[simp] theorem result_call : (call c rest).result = rest.result := rfl

@[simp] theorem calls_map {S : Type} (f : R → S) (r : Run C R) : (r.map f).calls = r.calls := rfl

@[simp] theorem result_map {S : Type} (f : R → S) (r : Run C R) :
    (r.map f).result = f r.result := rfl

@[simp] theorem calls_call : (call c rest).calls = c :: rest.calls := rfl

/-- What holds at the exit and of the rest holds. -/
theorem result_attempt (P : R → Prop) (hlabel : P label.result) (hrest : P rest.result) :
    P (attempt c ok label rest).result := by
  rw [attempt, result_call]
  split
  · exact hrest
  · exact hlabel

/-- What does not hold at the exit holds if the call goes well and it holds of the rest. -/
theorem result_attempt_iff (P : R → Prop) (hlabel : ¬ P label.result) :
    P (attempt c ok label rest).result ↔ ok ∧ P rest.result := by
  rw [attempt, result_call]
  split
  · next h => exact (and_iff_right h).symm
  · next h => exact ⟨fun hP ↦ absurd hP hlabel, fun hP ↦ absurd hP.1 h⟩

/-- A call that is neither this one nor made at the exit is made if this one goes well and the rest
makes it. -/
theorem mem_calls_attempt_iff (hx : x ≠ c) (hlabel : x ∉ label.calls) :
    x ∈ (attempt c ok label rest).calls ↔ ok ∧ x ∈ rest.calls := by
  rw [attempt, calls_call, List.mem_cons, or_iff_right hx]
  split
  · next h => exact (and_iff_right h).symm
  · next h => exact ⟨fun hm ↦ absurd hm hlabel, fun hm ↦ absurd hm.1 h⟩

theorem notMem_calls_attempt (hx : x ≠ c) (hlabel : x ∉ label.calls) (hrest : x ∉ rest.calls) :
    x ∉ (attempt c ok label rest).calls :=
  fun h ↦ hrest ((mem_calls_attempt_iff hx hlabel).1 h).2

/-- The call itself. -/
theorem mem_calls_attempt_self (hlabel : x ∉ label.calls) (hrest : x ∉ rest.calls) :
    x ∈ (attempt c ok label rest).calls ↔ x = c := by
  rw [attempt, calls_call, List.mem_cons]
  refine or_iff_left ?_
  split
  · exact hrest
  · exact hlabel

end

end Attempt
