import Mathlib.Data.List.Basic

/-!
# Runs of a transition function

A component that takes one step after another is given here by a partial function
`step : σ → ε → Option σ`: `step s e = some t` says that the event `e` can happen in the state `s`
and leads to `t`, and `step s e = none` that it cannot happen there.  An interleaving of several
threads is a list of events; which thread an event belongs to is the caller's business.

Three notions are all that is needed to speak about *every* run:

* `Transition.Always step P s es` — `P` holds in every state visited while `es` is run from `s`;
* `Transition.Guarded step ok s es` — every step taken on the way met the guard `ok`, a predicate
  on the state *before* the step and the event;
* `Transition.restrict step ok` — the same system with the steps that break `ok` left out.

Three rules come with them.  `always_of_invariant` is the usual induction: an invariant that holds
initially and is preserved by every step holds throughout.  `always_of_guarded` is the same for a
system that is right only under a guard, and `always_iff_guarded` its exact form: when the invariant
survives every guarded step, and every unguarded step leads straight to a state that violates the
property, the property holds throughout a run *if and only if* every step of that run met the guard.
-/

set_option autoImplicit false

namespace Transition

universe u v

variable {σ : Type u} {ε : Type v}

/-- `P` holds in every state visited while the events are run from `s`.  An event that cannot
happen ends the run. -/
def Always (step : σ → ε → Option σ) (P : σ → Prop) : σ → List ε → Prop
  | s, [] => P s
  | s, e :: es => P s ∧ match step s e with
    | some t => Always step P t es
    | none => True

/-- Every step taken while the events are run from `s` met the guard `ok`. -/
def Guarded (step : σ → ε → Option σ) (ok : σ → ε → Prop) : σ → List ε → Prop
  | _, [] => True
  | s, e :: es => match step s e with
    | some t => ok s e ∧ Guarded step ok t es
    | none => True

/-- The state a list of events leads to, when each of them can happen in its turn. -/
def run (step : σ → ε → Option σ) : σ → List ε → Option σ
  | s, [] => some s
  | s, e :: es => match step s e with
    | some t => run step t es
    | none => none

/-- The system with the steps that break `ok` left out. -/
def restrict (step : σ → ε → Option σ) (ok : σ → ε → Prop) [∀ s e, Decidable (ok s e)] :
    σ → ε → Option σ :=
  fun s e ↦ if ok s e then step s e else none

section

variable {step : σ → ε → Option σ} {P : σ → Prop} {ok : σ → ε → Prop}

theorem always_cons_some {s t : σ} {e : ε} {es : List ε} (h : step s e = some t) :
    Always step P s (e :: es) ↔ P s ∧ Always step P t es := by
  rw [Always, h]

theorem always_cons_none {s : σ} {e : ε} {es : List ε} (h : step s e = none) :
    Always step P s (e :: es) ↔ P s := by
  rw [Always, h, and_true]

theorem guarded_cons_some {s t : σ} {e : ε} {es : List ε} (h : step s e = some t) :
    Guarded step ok s (e :: es) ↔ ok s e ∧ Guarded step ok t es := by
  rw [Guarded, h]

theorem guarded_cons_none {s : σ} {e : ε} {es : List ε} (h : step s e = none) :
    Guarded step ok s (e :: es) := by
  rw [Guarded, h]; trivial

instance decidableGuarded [∀ s e, Decidable (ok s e)] (s : σ) (es : List ε) :
    Decidable (Guarded step ok s es) :=
  match es with
  | [] => .isTrue trivial
  | e :: es =>
    match h : step s e with
    | some t =>
      let _ := decidableGuarded t es
      decidable_of_iff _ (guarded_cons_some h).symm
    | none => .isTrue (guarded_cons_none h)

theorem Always.head {s : σ} {es : List ε} (h : Always step P s es) : P s := by
  cases es with
  | nil => exact h
  | cons e es => exact h.1

theorem run_append (s : σ) (es fs : List ε) :
    run step s (es ++ fs) = (run step s es).bind fun t ↦ run step t fs := by
  induction es generalizing s with
  | nil => rfl
  | cons e es ih =>
    rw [List.cons_append, run, run]
    cases step s e with
    | none => rfl
    | some t => exact ih t

/-- What holds throughout a run holds throughout what follows a first part of it. -/
theorem Always.of_append {s t : σ} {es fs : List ε} (h : Always step P s (es ++ fs))
    (hr : run step s es = some t) : Always step P t fs := by
  induction es generalizing s with
  | nil => rw [run, Option.some_inj] at hr; exact hr ▸ h
  | cons e es ih =>
    rw [run] at hr
    split at hr
    · next u hu => exact ih ((always_cons_some hu).1 h).2 hr
    · exact absurd hr (by simp)

/-- What holds throughout a run holds where the run ends. -/
theorem Always.of_run {s t : σ} {es : List ε} (h : Always step P s es)
    (hr : run step s es = some t) : P t := by
  rw [← List.append_nil es] at h
  exact h.of_append hr

theorem restrict_eq_some [∀ s e, Decidable (ok s e)] {s t : σ} {e : ε} :
    restrict step ok s e = some t ↔ ok s e ∧ step s e = some t := by
  rw [restrict]
  split
  · next h => simp [h]
  · next h => simp [h]

/-- **The invariant rule**: what holds initially and is preserved by every step holds in every
state of every run. -/
theorem always_of_invariant (Inv : σ → Prop) (hP : ∀ s, Inv s → P s)
    (hstep : ∀ s e t, Inv s → step s e = some t → Inv t) {s : σ} (es : List ε) (h : Inv s) :
    Always step P s es := by
  induction es generalizing s with
  | nil => exact hP s h
  | cons e es ih =>
    cases hs : step s e with
    | none => exact (always_cons_none hs).2 (hP s h)
    | some t => exact (always_cons_some hs).2 ⟨hP s h, ih (hstep s e t h hs)⟩

/-- The invariant rule for guards: if the invariant gives the guard of each step and survives the
step, every step of every run meets it. -/
theorem guarded_of_invariant (Inv : σ → Prop) (hok : ∀ s e t, Inv s → step s e = some t → ok s e)
    (hstep : ∀ s e t, Inv s → step s e = some t → Inv t) {s : σ} (es : List ε) (h : Inv s) :
    Guarded step ok s es := by
  induction es generalizing s with
  | nil => trivial
  | cons e es ih =>
    cases hs : step s e with
    | none => exact guarded_cons_none hs
    | some t => exact (guarded_cons_some hs).2 ⟨hok s e t h hs, ih (hstep s e t h hs)⟩

/-- Where every event can always happen, a guard on the events alone is one on the list of them. -/
theorem guarded_iff_forall_mem {ok : ε → Prop} (htotal : ∀ s e, ∃ t, step s e = some t) (s : σ)
    (es : List ε) : Guarded step (fun _ e ↦ ok e) s es ↔ ∀ e ∈ es, ok e := by
  induction es generalizing s with
  | nil => exact iff_of_true trivial (by simp)
  | cons e es ih =>
    obtain ⟨t, ht⟩ := htotal s e
    rw [guarded_cons_some ht, List.forall_mem_cons, ih]

/-- **The guard rule**: what holds initially and is preserved by every step that meets the guard
holds in every state of every run whose steps all meet it. -/
theorem always_of_guarded (Inv : σ → Prop) (hP : ∀ s, Inv s → P s)
    (hstep : ∀ s e t, Inv s → ok s e → step s e = some t → Inv t) {s : σ} (es : List ε)
    (h : Inv s) (hG : Guarded step ok s es) : Always step P s es := by
  induction es generalizing s with
  | nil => exact hP s h
  | cons e es ih =>
    cases hs : step s e with
    | none => exact (always_cons_none hs).2 (hP s h)
    | some t =>
      obtain ⟨hok, hG⟩ := (guarded_cons_some hs).1 hG
      exact (always_cons_some hs).2 ⟨hP s h, ih (hstep s e t h hok hs) hG⟩

/-- **The exact guard rule**: if the invariant survives every step that meets the guard, and a step
that does not meet it leads to a state where `P` fails, then `P` holds in every state of a run
exactly when every step of the run met the guard. -/
theorem always_iff_guarded (Inv : σ → Prop) (hP : ∀ s, Inv s → P s)
    (hstep : ∀ s e t, Inv s → ok s e → step s e = some t → Inv t)
    (hbad : ∀ s e t, Inv s → ¬ ok s e → step s e = some t → ¬ P t) {s : σ} (es : List ε)
    (h : Inv s) : Always step P s es ↔ Guarded step ok s es := by
  induction es generalizing s with
  | nil => exact ⟨fun _ ↦ trivial, fun _ ↦ hP s h⟩
  | cons e es ih =>
    cases hs : step s e with
    | none => exact ⟨fun _ ↦ guarded_cons_none hs, fun _ ↦ (always_cons_none hs).2 (hP s h)⟩
    | some t =>
      rw [always_cons_some hs, guarded_cons_some hs]
      constructor
      · rintro ⟨-, hA⟩
        by_cases hok : ok s e
        · exact ⟨hok, (ih (hstep s e t h hok hs)).1 hA⟩
        · exact absurd hA.head (hbad s e t h hok hs)
      · rintro ⟨hok, hG⟩
        exact ⟨hP s h, (ih (hstep s e t h hok hs)).2 hG⟩

end

end Transition
