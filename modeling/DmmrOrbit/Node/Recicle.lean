import DmmrOrbit.Lib.Transition
import DmmrOrbit.Node.RecvManager

/-!
# Giving an acquired slot back

`tcp_receiver_thread` acquires a slot before it reads from the socket; when there is nothing to be
read it gives the slot back with `recicle_node`, which is meant to undo the acquire.  A `SlotRun` is
a manager with the history this is about: what the last call did, and which slots have been given
back and not acquired since.  `slotStep` runs the three calls, `recicle_node` only on the position
that the call just before it has acquired.

`Undone` says of a state that the last call did what it should: after a `recicle_node` the busy
slots are those from before the acquire, and `get_buzy_node` has not returned a slot that was given
back.  The test `pos && pos < 0x100` of `recicle_node` spares position 0, the first slot a fresh
manager hands out, so this holds throughout a run exactly when the run never gives back slot 0
(`recicleNode_undoes_getFreeNode`).
-/

set_option autoImplicit false

namespace DmmrOrbit

/-- What the last call on a manager did.  `before` are the status bytes from before the acquire. -/
inductive LastCall
  | none
  | acquired (pos : Fin 256) (before : Fin 256 → Bool)
  | recicled (pos : Fin 256) (before : Fin 256 → Bool)
  | returned (pos : Fin 256)
  | refused

/-- A manager, its last call, and the slots given back and not acquired since. -/
structure SlotRun where
  manager : NodeRecvManager
  last : LastCall
  aborted : Fin 256 → Bool

/-- The calls; `recicle` is for the position just acquired. -/
inductive SlotCall
  | getFree
  | getBuzy
  | recicle
  deriving DecidableEq, Repr

namespace SlotRun

def init (input : NodeRecvManager) : SlotRun := ⟨initNodeRecvManager input, .none, fun _ ↦ false⟩

/-- The last call did what it should. -/
def Undone (s : SlotRun) : Prop :=
  match s.last with
  | .recicled pos before => s.manager.busy pos = false ∧ s.manager.busy = before
  | .returned pos => s.aborted pos = false
  | _ => True

/-- A slot to be given back is not slot 0. -/
def NotFirst (s : SlotRun) : SlotCall → Prop
  | .recicle => ∀ before, s.last ≠ .acquired 0 before
  | _ => True

end SlotRun

open SlotRun

def slotStep (s : SlotRun) : SlotCall → Option SlotRun
  | .getFree =>
    match getFreeNode s.manager with
    | (some pos, m) => some ⟨m, .acquired pos s.manager.busy, Function.update s.aborted pos false⟩
    | (none, m) => some ⟨m, .refused, s.aborted⟩
  | .getBuzy =>
    match getBuzyNode s.manager with
    | (some pos, m) => some ⟨m, .returned pos, s.aborted⟩
    | (none, m) => some ⟨m, .refused, s.aborted⟩
  | .recicle =>
    match s.last with
    | .acquired pos before =>
      some ⟨recicleNode s.manager pos, .recicled pos before, Function.update s.aborted pos true⟩
    | _ => none

/-- What can happen to a run: an acquire or a release, carried out or refused, and the return of the
slot just acquired. -/
theorem slotStep_cases {s t : SlotRun} {c : SlotCall} (h : slotStep s c = some t) :
    (∃ pos m, c = .getFree ∧ getFreeNode s.manager = (some pos, m) ∧
      t = ⟨m, .acquired pos s.manager.busy, Function.update s.aborted pos false⟩) ∨
    (∃ pos m, c = .getBuzy ∧ getBuzyNode s.manager = (some pos, m) ∧
      t = ⟨m, .returned pos, s.aborted⟩) ∨
    (c ≠ .recicle ∧ t = ⟨s.manager, .refused, s.aborted⟩) ∨
    (∃ pos before, c = .recicle ∧ s.last = .acquired pos before ∧
      t = ⟨recicleNode s.manager pos, .recicled pos before,
        Function.update s.aborted pos true⟩) := by
  cases c with
  | getFree =>
    rw [slotStep] at h
    split at h
    · next pos m hcall => exact .inl ⟨pos, m, rfl, hcall, (Option.some.inj h).symm⟩
    · next m hcall =>
      obtain rfl := getFreeNode_none hcall
      exact .inr (.inr (.inl ⟨by simp, (Option.some.inj h).symm⟩))
  | getBuzy =>
    rw [slotStep] at h
    split at h
    · next pos m hcall => exact .inr (.inl ⟨pos, m, rfl, hcall, (Option.some.inj h).symm⟩)
    · next m hcall =>
      obtain rfl := getBuzyNode_none hcall
      exact .inr (.inr (.inl ⟨by simp, (Option.some.inj h).symm⟩))
  | recicle =>
    rw [slotStep] at h
    split at h
    · next pos before hlast =>
      exact .inr (.inr (.inr ⟨pos, before, rfl, hlast, (Option.some.inj h).symm⟩))
    · exact absurd h (by simp)

/-- `recicle_node` frees its slot, unless that is slot 0. -/
theorem recicleNode_busy {m : NodeRecvManager} {pos : Fin 256} (h : pos ≠ 0) :
    (recicleNode m pos).busy = Function.update m.busy pos false := by
  funext i
  rw [recicleNode, if_pos h, NodeRecvManager.busy, m.setStatus_status, Function.update_apply]
  rfl

/-- What the runs keep. -/
structure SlotInv (s : SlotRun) : Prop where
  undone : s.Undone
  /-- A slot given back is free. -/
  aborted : ∀ i, s.aborted i = true → s.manager.busy i = false
  /-- The slot just acquired was free, and is all that has changed. -/
  acquired : ∀ pos before, s.last = .acquired pos before →
    before pos = false ∧ s.manager.busy = Function.update before pos true

namespace SlotInv

theorem init (input : NodeRecvManager) : SlotInv (init input) :=
  ⟨trivial, by simp [SlotRun.init], by simp [SlotRun.init]⟩

/-- One call keeps the invariant, unless it gives back slot 0. -/
theorem step {s t : SlotRun} {c : SlotCall} (h : SlotInv s) (hok : s.NotFirst c)
    (hs : slotStep s c = some t) : SlotInv t := by
  obtain ⟨pos, m, rfl, hcall, rfl⟩ | ⟨pos, m, rfl, hcall, rfl⟩ | ⟨-, rfl⟩ |
    ⟨pos, before, rfl, hlast, rfl⟩ := slotStep_cases hs
  · obtain ⟨hfree, hstatus⟩ := getFreeNode_some hcall
    refine ⟨trivial, fun i hi ↦ ?_, ?_⟩
    · have hne : i ≠ pos := by rintro rfl; simp at hi
      have hab : s.aborted i = true := by simpa [hne] using hi
      show (m.buffer i).nodeBufferStatus = false
      rw [hstatus, if_neg hne]
      exact h.aborted i hab
    · rintro pos' before' hlast
      obtain ⟨rfl, rfl⟩ := LastCall.acquired.inj hlast
      refine ⟨hfree, funext fun i ↦ ?_⟩
      rw [Function.update_apply]
      exact hstatus i
  · obtain ⟨hbusy, hstatus⟩ := getBuzyNode_some hcall
    refine ⟨?_, fun i hi ↦ ?_, by simp⟩
    · -- a slot given back is free, and this one was busy
      have hne : s.aborted pos ≠ true := fun hab ↦ by
        have := h.aborted pos hab
        rw [NodeRecvManager.busy, hbusy] at this
        exact absurd this (by decide)
      exact Bool.eq_false_of_not_eq_true hne
    · show (m.buffer i).nodeBufferStatus = false
      rw [hstatus]
      split
      · rfl
      · exact h.aborted i hi
  · exact ⟨trivial, h.aborted, by simp⟩
  · obtain ⟨hfree, hbusy⟩ := h.acquired pos before hlast
    have hne : pos ≠ 0 := by
      rintro rfl
      exact hok before hlast
    have hback : (recicleNode s.manager pos).busy = before := by
      rw [recicleNode_busy hne, hbusy, Function.update_idem, ← hfree, Function.update_eq_self]
    refine ⟨⟨?_, hback⟩, fun i hi ↦ ?_, by simp⟩
    · show (recicleNode s.manager pos).busy pos = false
      rw [hback, hfree]
    · show (recicleNode s.manager pos).busy i = false
      rw [recicleNode_busy hne, Function.update_apply]
      split
      · rfl
      · next hi' => exact h.aborted i (by simpa [hi'] using hi)

/-- Giving slot 0 back leaves it busy. -/
theorem step_first {s t : SlotRun} {c : SlotCall} (h : SlotInv s) (hbad : ¬ s.NotFirst c)
    (hs : slotStep s c = some t) : ¬ t.Undone := by
  obtain ⟨pos, m, rfl, -, rfl⟩ | ⟨pos, m, rfl, -, rfl⟩ | ⟨hc, rfl⟩ |
    ⟨pos, before, rfl, hlast, rfl⟩ := slotStep_cases hs
  · exact absurd trivial hbad
  · exact absurd trivial hbad
  · cases c with
    | recicle => exact absurd rfl hc
    | _ => exact absurd trivial hbad
  · have hpos : pos = 0 := by
      by_contra hne
      refine hbad fun before' hlast' ↦ hne ?_
      rw [hlast] at hlast'
      exact (LastCall.acquired.inj hlast').1
    subst hpos
    rintro ⟨hfree, -⟩
    have hbusy := (h.acquired 0 before hlast).2
    rw [recicleNode, if_neg (by simp), hbusy, Function.update_self] at hfree
    exact absurd hfree (by decide)

end SlotInv

/-- **`recicle_node` undoes `get_free_node`, except for slot 0.**  Over any calls from
`init_node_recv_manager` on, giving back the slot just acquired always restores the busy slots and
`get_buzy_node` never returns a slot given back, exactly when none of the slots given back is slot
0. -/
theorem recicleNode_undoes_getFreeNode (input : NodeRecvManager) (calls : List SlotCall) :
    Transition.Always slotStep Undone (init input) calls ↔
      Transition.Guarded slotStep NotFirst (init input) calls :=
  Transition.always_iff_guarded SlotInv (fun _ h ↦ h.undone) (fun _ _ _ h hok hs ↦ h.step hok hs)
    (fun _ _ _ h hbad hs ↦ h.step_first hbad hs) calls (.init input)

/-- The first slot a fresh manager hands out is slot 0, and giving it back leaves it busy. -/
theorem recicleNode_keeps_slot_zero : ¬ ∀ (input : NodeRecvManager) (calls : List SlotCall),
    Transition.Always slotStep Undone (init input) calls := by
  intro h
  obtain ⟨-, -, hfree, -⟩ := h (.zero .mtu1500) [.getFree, .recicle]
  exact absurd hfree (by decide)

end DmmrOrbit
