import Mathlib.Data.List.Nodup

/-!
# Bounded first-in first-out queues

The specification of a queue of at most `cap` distinct elements that hands out the elements
itself: `put` asks the queue for a fresh element and appends it, `take` removes the oldest one.
Both can be refused, and the specification says exactly when — `put` when the queue is full,
`take` when it is empty.

* `BoundedFifo.Step cap q c q'` — the call `c`, result included, takes the queue `q` to `q'`;
* `BoundedFifo.Run cap q cs q'` — a list of calls does;
* `Run.puts_eq` — the first-in first-out law: what was put is what was taken followed by what is
  still queued;
* `exists_run_of_simulation` — the refinement rule.  An implementation that keeps a relation to
  some queue through every single operation produces, over any list of operations, a run of the
  specification.
-/

set_option autoImplicit false

namespace BoundedFifo

universe u v w

variable {α : Type u}

/-- A call together with its result; `none` is a refusal. -/
inductive Call (α : Type u)
  | put (result : Option α)
  | take (result : Option α)
  deriving DecidableEq

/-- One call on a queue of capacity `cap`. -/
inductive Step (cap : ℕ) : List α → Call α → List α → Prop
  | put {q : List α} {a : α} (hroom : q.length < cap) (hfresh : a ∉ q) :
      Step cap q (.put (some a)) (q ++ [a])
  | putFull {q : List α} (hfull : q.length = cap) : Step cap q (.put none) q
  | take (a : α) (q : List α) : Step cap (a :: q) (.take (some a)) q
  | takeEmpty : Step cap [] (.take none) []

/-- A list of calls. -/
inductive Run (cap : ℕ) : List α → List (Call α) → List α → Prop
  | nil (q : List α) : Run cap q [] q
  | cons {q r t : List α} {c : Call α} {cs : List (Call α)} (h : Step cap q c r)
      (hs : Run cap r cs t) : Run cap q (c :: cs) t

/-- The elements a list of calls put into the queue. -/
def puts : List (Call α) → List α
  | [] => []
  | .put (some a) :: cs => a :: puts cs
  | _ :: cs => puts cs

/-- The elements a list of calls took out of the queue. -/
def takes : List (Call α) → List α
  | [] => []
  | .take (some a) :: cs => a :: takes cs
  | _ :: cs => takes cs

variable {cap : ℕ}

theorem Step.nodup {q r : List α} {c : Call α} (h : Step cap q c r) (hq : q.Nodup) :
    r.Nodup := by
  cases h with
  | put _ hfresh => exact List.nodup_append.2 ⟨hq, by simp, by
      rintro a ha b hb rfl; exact hfresh (List.mem_singleton.1 hb ▸ ha)⟩
  | putFull _ => exact hq
  | take a q => exact hq.of_cons
  | takeEmpty => exact hq

theorem Step.length_le {q r : List α} {c : Call α} (h : Step cap q c r) (hq : q.length ≤ cap) :
    r.length ≤ cap := by
  cases h with
  | put hroom _ => simpa using Nat.succ_le_of_lt hroom
  | putFull _ => exact hq
  | take a q => simp only [List.length_cons] at hq; omega
  | takeEmpty => exact hq

/-- No element is queued twice. -/
theorem Run.nodup {q r : List α} {cs : List (Call α)} (h : Run cap q cs r) (hq : q.Nodup) :
    r.Nodup := by
  induction h with
  | nil => exact hq
  | cons hstep _ ih => exact ih (hstep.nodup hq)

theorem Run.length_le {q r : List α} {cs : List (Call α)} (h : Run cap q cs r)
    (hq : q.length ≤ cap) : r.length ≤ cap := by
  induction h with
  | nil => exact hq
  | cons hstep _ ih => exact ih (hstep.length_le hq)

/-- **First in, first out**: what was queued at the start followed by what was put is what was
taken followed by what is queued at the end. -/
theorem Run.puts_eq {q r : List α} {cs : List (Call α)} (h : Run cap q cs r) :
    q ++ puts cs = takes cs ++ r := by
  induction h with
  | nil => simp [puts, takes]
  | cons hstep _ ih =>
    cases hstep with
    | put _ _ => simpa [puts, takes] using ih
    | putFull _ => simpa [puts, takes] using ih
    | take a q => simpa [puts, takes] using ih
    | takeEmpty => simpa [puts, takes] using ih

/-! ## Refinement -/

variable {σ : Type v} {ω : Type w}

/-- The calls an implementation `op` makes on the queue while it performs a list of operations. -/
def calls (op : σ → ω → Call α × σ) : σ → List ω → List (Call α)
  | _, [] => []
  | s, o :: os => (op s o).1 :: calls op (op s o).2 os

/-- The state the implementation ends in. -/
def final (op : σ → ω → Call α × σ) : σ → List ω → σ
  | s, [] => s
  | s, o :: os => final op (op s o).2 os

/-- **The refinement rule**: an implementation each of whose operations is a step of the
specification, along some relation to a queue, only ever performs runs of the specification. -/
theorem exists_run_of_simulation {op : σ → ω → Call α × σ} {R : σ → List α → Prop}
    (hsim : ∀ s q o, R s q → ∃ r, Step cap q (op s o).1 r ∧ R (op s o).2 r) {s : σ} {q : List α}
    (os : List ω) (h : R s q) : ∃ r, Run cap q (calls op s os) r ∧ R (final op s os) r := by
  induction os generalizing s q with
  | nil => exact ⟨q, .nil q, h⟩
  | cons o os ih =>
    obtain ⟨r, hstep, hr⟩ := hsim s q o h
    obtain ⟨t, hrun, ht⟩ := ih hr
    exact ⟨t, .cons hstep hrun, ht⟩

end BoundedFifo
