import DmmrOrbit.Lib.Linearizable
import DmmrOrbit.Node.Queue

/-!
# The receive manager between threads

`get_free_node`, `get_buzy_node` and `recicle_node` take the manager's mutex, and the two getters go
round their loop under it slot by slot.  `managerBody` has a step for each slot, and any number of
threads may call any of the three at any time.

`nodeRecvManager_linearizable` says that nothing of this shows: every history of calls and returns
is one in which each call was made at once, somewhere between its call and its return.  As long as
nothing is put back with `recicle_node`, the manager is a bounded queue of 256 slots for all the
threads together, so no slot is with two of them.

`recicle_node` does not take the mutex for slot 0, for which it does nothing; so it is only called
with another one here.
-/

set_option autoImplicit false

namespace DmmrOrbit

open Transition Cyclic Linearizable

/-! ## The calls, turn by turn -/

/-- A call that takes the mutex. -/
inductive ManagerCall
  | getFree
  | getBuzy
  | recicle (pos : Fin 256) (h : pos ≠ 0)

/-- The call in one step. -/
def lockedCall (m : NodeRecvManager) : ManagerCall → Option (Fin 256) × NodeRecvManager
  | .getFree => getFreeNode m
  | .getBuzy => getBuzyNode m
  | .recicle pos _ => (none, recicleNode m pos)

/-- The local variables of a call under the mutex.  A getter looks for slots of a status. -/
inductive ManagerLocal
  | scan (status : Bool) (start current : Fin 256)
  | recicle (pos : Fin 256)

/-- What a getter does with the slot that it has found. -/
def takeSlot (m : NodeRecvManager) (status : Bool) (current : Fin 256) : NodeRecvManager :=
  match status with
  | false => { m.setStatus current true with nextFreeIndex := current + 1 }
  | true => { m.setStatus current false with nextBusyIndex := current + 1 }

def managerBody : Body NodeRecvManager ManagerCall (Option (Fin 256)) ManagerLocal where
  enter m
    | .getFree => .scan false m.nextFreeIndex m.nextFreeIndex
    | .getBuzy => .scan true m.nextBusyIndex m.nextBusyIndex
    | .recicle pos _ => .recicle pos
  turn m
    | .scan status start current =>
      if (m.buffer current).nodeBufferStatus = status then
        (takeSlot m status current, .inr (some current))
      else if current + 1 = start then (m, .inr none)
      else (m, .inl (.scan status start (current + 1)))
    | .recicle pos => (m.setStatus pos false, .inr none)

/-- What a getter returns and leaves when its loop has come to this. -/
def scanResult (m : NodeRecvManager) (status : Bool) :
    Option (Fin 256) → Option (Fin 256) × NodeRecvManager
  | some current => (some current, takeSlot m status current)
  | none => (none, m)

/-- The loop turn by turn comes to what `scan` comes to. -/
theorem computes_scan (m : NodeRecvManager) (status : Bool) {start : Fin 256} {k fuel : ℕ}
    (hk : k + (fuel + 1) = 256) :
    managerBody.Computes m (.scan status start (shift start k))
      (scanResult m status (scan m.buffer status start (fuel + 1) (shift start k))) := by
  induction fuel generalizing k with
  | zero =>
    have hend : shift start k + 1 = start := by
      rw [← shift_succ, show k + 1 = 0 + 256 by omega, shift_add_card, shift_zero]
    rw [scan]
    by_cases hfound : (m.buffer (shift start k)).nodeBufferStatus = status
    · rw [if_pos hfound]
      exact .last (if_pos hfound)
    · rw [if_neg hfound, if_pos hend]
      exact .last ((if_neg hfound).trans (if_pos hend))
  | succ fuel ih =>
    have hne : shift start k + 1 ≠ start := fun heq ↦ by
      rw [← shift_succ] at heq
      have := (shift_inj (j := k + 1) (k := 0) (by omega) (by omega)).1
        (heq.trans (shift_zero start).symm)
      omega
    rw [scan]
    by_cases hfound : (m.buffer (shift start k)).nodeBufferStatus = status
    · rw [if_pos hfound]
      exact .last (if_pos hfound)
    · rw [if_neg hfound, if_neg hne]
      refine .next ((if_neg hfound).trans (if_neg hne)) ?_
      rw [← shift_succ]
      exact ih (by omega)

/-- Under the mutex the calls do what they do in one step. -/
theorem managerBody_implements : managerBody.Implements lockedCall := by
  intro m op
  cases op with
  | getFree =>
    have hscan : managerBody.Computes m (.scan false m.nextFreeIndex (shift m.nextFreeIndex 0)) _ :=
      computes_scan m false (k := 0) (show 0 + (255 + 1) = 256 from rfl)
    rw [shift_zero] at hscan
    rw [lockedCall, getFreeNode]
    cases hfound : scan m.buffer false m.nextFreeIndex 256 m.nextFreeIndex with
    | none => rw [hfound] at hscan; exact hscan
    | some current => rw [hfound] at hscan; exact hscan
  | getBuzy =>
    have hscan : managerBody.Computes m (.scan true m.nextBusyIndex (shift m.nextBusyIndex 0)) _ :=
      computes_scan m true (k := 0) (show 0 + (255 + 1) = 256 from rfl)
    rw [shift_zero] at hscan
    rw [lockedCall, getBuzyNode]
    cases hfound : scan m.buffer true m.nextBusyIndex 256 m.nextBusyIndex with
    | none => rw [hfound] at hscan; exact hscan
    | some current => rw [hfound] at hscan; exact hscan
  | recicle pos hpos =>
    rw [lockedCall, recicleNode, if_pos hpos]
    exact .last rfl

/-! ## The queue -/

section

variable {ι : Type}

/-- The calls as calls on a queue of slots. -/
def fifoCalls (ds : List (Done ι ManagerCall (Option (Fin 256)))) :
    List (BoundedFifo.Call (Fin 256)) :=
  ds.filterMap fun d ↦ match d.op with
    | .getFree => some (.put d.result)
    | .getBuzy => some (.take d.result)
    | .recicle _ _ => none

/-- Nobody has called `recicle_node`. -/
def NoRecicle (h : List (Event ι ManagerCall (Option (Fin 256)))) : Prop :=
  ∀ id i pos hpos, .call id i (.recicle pos hpos) ∉ h

/-- Without `recicle_node`, legal calls are a run of the queue. -/
theorem exists_run_of_legal {ds : List (Done ι ManagerCall (Option (Fin 256)))}
    {m : NodeRecvManager} {q : List (Fin 256)} (hm : Outstanding m q) (h : Legal lockedCall m ds)
    (hop : ∀ d ∈ ds, ∀ pos hpos, d.op ≠ .recicle pos hpos) :
    ∃ r, BoundedFifo.Run 256 q (fifoCalls ds) r ∧ Outstanding (after lockedCall m ds) r := by
  induction ds generalizing m q with
  | nil => exact ⟨q, .nil q, hm⟩
  | cons d ds ih =>
    obtain ⟨hresult, hlegal⟩ := h
    obtain ⟨hd, hds⟩ := List.forall_mem_cons.1 hop
    obtain ⟨id, i, op, result⟩ := d
    cases op with
    | getFree =>
      obtain ⟨r, hstep, hr⟩ := managerOp_step m q .getFree hm
      obtain ⟨t, hrun, ht⟩ := ih hr hlegal hds
      obtain rfl : (getFreeNode m).1 = result := hresult
      exact ⟨t, .cons hstep hrun, ht⟩
    | getBuzy =>
      obtain ⟨r, hstep, hr⟩ := managerOp_step m q .getBuzy hm
      obtain ⟨t, hrun, ht⟩ := ih hr hlegal hds
      obtain rfl : (getBuzyNode m).1 = result := hresult
      exact ⟨t, .cons hstep hrun, ht⟩
    | recicle pos hpos => exact absurd rfl (hd pos hpos)

/-- **The receive manager is linearizable.**  For any threads with any calls on a manager after
`init_node_recv_manager`, and every interleaving of their steps, the calls can be put into a
sequence that has the results that were returned, with no call before one that had returned when it
was made; while nobody calls `recicle_node`, this is a run of the bounded queue of 256 slots.  And
where a thread is in a call, one of the threads can go on. -/
theorem nodeRecvManager_linearizable [DecidableEq ι] (input : NodeRecvManager)
    {ms : List (Move ι ManagerCall)}
    {s : State ι NodeRecvManager ManagerCall (Option (Fin 256)) ManagerLocal}
    (h : run (move managerBody) (.start (initNodeRecvManager input)) ms = some s) :
    (∃ ds, Linearizes lockedCall (initNodeRecvManager input) s.history ds ∧
      (NoRecicle s.history → ∃ q, BoundedFifo.Run 256 [] (fifoCalls ds) q)) ∧
    ∀ i, s.pc i ≠ .idle → ∃ j t, move managerBody s (.step j) = some t := by
  have hinv := inv_of_run managerBody_implements h
  refine ⟨⟨s.order, hinv.linearizes, fun hno ↦ ?_⟩, fun i hi ↦ hinv.exists_move hi⟩
  obtain ⟨q, hrun, -⟩ := exists_run_of_legal (.init input) hinv.linearizes.legal
    fun d hd pos hpos hop ↦ hno d.id d.thread pos hpos (hop ▸ hinv.linearizes.called d hd)
  exact ⟨q, hrun⟩

end

/-- Two threads ask for a slot at the same time. -/
theorem nodeRecvManager_linearizable_two :
    ∃ s : State Bool NodeRecvManager ManagerCall (Option (Fin 256)) ManagerLocal,
      run (move managerBody) (.start (initNodeRecvManager (.zero .mtu1500)))
          [.call true .getFree, .call false .getFree, .step true, .step true, .step true,
            .step false, .step false, .step false, .step false, .step true] = some s ∧
        s.history = [.call 0 true .getFree, .call 1 false .getFree, .ret 1 false (some 1),
          .ret 0 true (some 0)] ∧
        ∃ ds, Linearizes lockedCall (initNodeRecvManager (.zero .mtu1500)) s.history ds := by
  obtain ⟨s, hs, hhistory⟩ :
      ∃ s : State Bool NodeRecvManager ManagerCall (Option (Fin 256)) ManagerLocal,
        run (move managerBody) (.start (initNodeRecvManager (.zero .mtu1500)))
            [.call true .getFree, .call false .getFree, .step true, .step true, .step true,
              .step false, .step false, .step false, .step false, .step true] = some s ∧
          s.history = [.call 0 true .getFree, .call 1 false .getFree, .ret 1 false (some 1),
            .ret 0 true (some 0)] := ⟨_, rfl, rfl⟩
  obtain ⟨⟨ds, hds, -⟩, -⟩ := nodeRecvManager_linearizable _ hs
  exact ⟨s, hs, hhistory, ds, hds⟩

end DmmrOrbit
