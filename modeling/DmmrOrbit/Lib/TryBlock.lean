import Mathlib.Data.Int.Notation

/-!
# Blocks that may be left

A block of statements over a state `σ`, in a language where a statement may throw: the state at the
throw is the one the handler sees.  A statement may also end the process.

`Triple P f Q R E` is the rule of reasoning: run in a state with `P`, the statement `f` leads to one
with `Q`, throws in one with `R`, or ends the process, and that only if `E`.  `Triple.cons` composes
them along a block, and `Triple.cons_throws` is for a statement after which there is none: it
always throws.
-/

set_option autoImplicit false

namespace TryBlock

universe u

variable {σ : Type u}

/-- How a statement ends. -/
inductive Outcome (σ : Type u)
  | done (s : σ)
  | thrown (s : σ)
  | exited

abbrev Command (σ : Type u) := σ → Outcome σ

/-- One statement after the other. -/
def block : List (Command σ) → Command σ
  | [], s => .done s
  | f :: fs, s =>
    match f s with
    | .done t => block fs t
    | .thrown t => .thrown t
    | .exited => .exited

/-- A statement that does not throw. -/
def assign (f : σ → σ) : Command σ := fun s ↦ .done (f s)

/-- The process ends. -/
def exitIf (b : Bool) : Command σ := fun s ↦ if b then .exited else .done s

/-- Something is made, and its absence is a throw. -/
def create (f : σ → σ) (made : σ → Bool) : Command σ := fun s ↦
  let s := f s
  if made s then .done s else .thrown s

/-- Something is called, and a result other than 0 is a throw. -/
def call (f : σ → ℤ × σ) : Command σ := fun s ↦
  let (ret, s) := f s
  if ret ≠ 0 then .thrown s else .done s

def Triple (P : σ → Prop) (f : Command σ) (Q R : σ → Prop) (E : Prop) : Prop :=
  ∀ s, P s → match f s with
    | .done t => Q t
    | .thrown t => R t
    | .exited => E

namespace Triple

variable {P P' Q Q' R R' S : σ → Prop} {E E' : Prop} {f : Command σ} {fs : List (Command σ)}

theorem mono (h : Triple P f Q R E) (hP : ∀ s, P' s → P s) (hQ : ∀ s, Q s → Q' s)
    (hR : ∀ s, R s → R' s) (hE : E → E') : Triple P' f Q' R' E' := by
  intro s hs
  have hf := h s (hP s hs)
  cases hfs : f s with
  | done t =>
    rw [hfs] at hf
    exact hQ t hf
  | thrown t =>
    rw [hfs] at hf
    exact hR t hf
  | exited =>
    rw [hfs] at hf
    exact hE hf

theorem nil : Triple P (block []) P R E := fun _ hs ↦ hs

theorem cons (hf : Triple P f Q R E) (hfs : Triple Q (block fs) S R E) :
    Triple P (block (f :: fs)) S R E := by
  intro s hs
  have hs := hf s hs
  rw [block]
  cases hfs' : f s with
  | done t =>
    rw [hfs'] at hs
    exact hfs t hs
  | thrown t =>
    rw [hfs'] at hs
    exact hs
  | exited =>
    rw [hfs'] at hs
    exact hs

/-- After a statement that does not end well there is nothing. -/
theorem cons_throws (hf : Triple P f (fun _ ↦ False) R E) : Triple P (block (f :: fs)) S R E :=
  cons hf fun _ hs ↦ hs.elim

theorem assign {g : σ → σ} (h : ∀ s, P s → Q (g s)) : Triple P (TryBlock.assign g) Q R E := h

theorem exitIf {b : Bool} (hdone : b = false → ∀ s, P s → Q s) (hexit : b = true → E) :
    Triple P (TryBlock.exitIf b) Q R E := by
  intro s hs
  cases b with
  | true => exact hexit rfl
  | false => exact hdone rfl s hs

theorem create {g : σ → σ} {made : σ → Bool} (hdone : ∀ s, P s → made (g s) = true → Q (g s))
    (hthrown : ∀ s, P s → made (g s) = false → R (g s)) :
    Triple P (TryBlock.create g made) Q R E := by
  intro s hs
  cases hmade : made (g s) with
  | true => simpa [TryBlock.create, hmade] using hdone s hs hmade
  | false => simpa [TryBlock.create, hmade] using hthrown s hs hmade

theorem call {g : σ → ℤ × σ} (hdone : ∀ s, P s → (g s).1 = 0 → Q (g s).2)
    (hthrown : ∀ s, P s → (g s).1 ≠ 0 → R (g s).2) : Triple P (TryBlock.call g) Q R E := by
  intro s hs
  by_cases hret : (g s).1 = 0
  · simpa [TryBlock.call, hret] using hdone s hs hret
  · simpa [TryBlock.call, hret] using hthrown s hs hret

end Triple

end TryBlock
