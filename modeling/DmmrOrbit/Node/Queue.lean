import DmmrOrbit.Lib.BoundedFifo
import DmmrOrbit.Node.RecvManager

/-!
# The receive manager is a bounded queue

Seen from outside, the receive manager is a queue of slot positions: `get_free_node` puts a
position into it and `get_buzy_node` takes the oldest one out.  `managerOp` states that view, and
`nodeRecvManager_refines_fifo` is the refinement: over any sequence of calls after
`init_node_recv_manager` the manager performs a run of the bounded queue of capacity 256, its
count is the length of that queue, and the positions it hands out are 0, 1, 2, … wrapping at 256.
-/

set_option autoImplicit false

namespace DmmrOrbit

open Cyclic BoundedFifo

/-- The two calls on a receive manager. -/
inductive ManagerOp
  | getFree
  | getBuzy
  deriving DecidableEq, Repr

/-- A call on the manager, seen as a call on a queue of slot positions. -/
def managerOp (m : NodeRecvManager) : ManagerOp → Call (Fin 256) × NodeRecvManager
  | .getFree => (.put (getFreeNode m).1, (getFreeNode m).2)
  | .getBuzy => (.take (getBuzyNode m).1, (getBuzyNode m).2)

/-- Every single call is a step of the queue. -/
theorem managerOp_step (m : NodeRecvManager) (q : List (Fin 256)) (op : ManagerOp)
    (h : Outstanding m q) :
    ∃ r, Step 256 q (managerOp m op).1 r ∧ Outstanding (managerOp m op).2 r := by
  cases op with
  | getFree =>
    rcases Nat.lt_or_eq_of_le h.length_le with hlt | hfull
    · refine ⟨q ++ [m.nextFreeIndex], ?_, h.acquire hlt⟩
      rw [managerOp, h.getFreeNode_eq hlt]
      exact .put hlt fun hmem ↦ absurd (h.free_mem_iff.1 hmem) (by omega)
    · refine ⟨q, ?_, ?_⟩
      · rw [managerOp, h.getFreeNode_full hfull]; exact .putFull hfull
      · rw [managerOp, h.getFreeNode_full hfull]; exact h
  | getBuzy =>
    cases q with
    | nil =>
      refine ⟨[], ?_, ?_⟩
      · rw [managerOp, h.getBuzyNode_nil]; exact .takeEmpty
      · rw [managerOp, h.getBuzyNode_nil]; exact h
    | cons p q =>
      refine ⟨q, ?_, h.release⟩
      rw [managerOp, h.getBuzyNode_eq]
      exact .take p q

/-- The positions handed out follow one another from `next_free_index` on. -/
theorem puts_eq_window (ops : List ManagerOp) {m : NodeRecvManager} {q : List (Fin 256)}
    (h : Outstanding m q) : puts (calls managerOp m ops) =
      window m.nextFreeIndex (puts (calls managerOp m ops)).length := by
  induction ops generalizing m q with
  | nil => rfl
  | cons op ops ih =>
    cases op with
    | getFree =>
      rcases Nat.lt_or_eq_of_le h.length_le with hlt | hfull
      · have hcall : puts (calls managerOp m (.getFree :: ops)) =
            m.nextFreeIndex :: puts (calls managerOp (getFreeNode m).2 ops) := by
          rw [calls, managerOp, h.getFreeNode_eq hlt, puts]
        have hnext : (getFreeNode m).2.nextFreeIndex = m.nextFreeIndex + 1 := by
          rw [h.getFreeNode_eq hlt]
        rw [hcall, List.length_cons, window_cons, ← hnext, ← ih (h.acquire hlt)]
      · have hcall : puts (calls managerOp m (.getFree :: ops)) = puts (calls managerOp m ops) := by
          simp only [calls, managerOp, h.getFreeNode_full hfull, puts]
        rw [hcall]
        exact ih h
    | getBuzy =>
      have hcall : puts (calls managerOp m (.getBuzy :: ops)) =
          puts (calls managerOp (getBuzyNode m).2 ops) := by
        simp only [calls, managerOp, puts]
      obtain ⟨r, -, hr⟩ := managerOp_step m q .getBuzy h
      have hnext : (getBuzyNode m).2.nextFreeIndex = m.nextFreeIndex := by
        rw [getBuzyNode]; split <;> rfl
      rw [hcall, ← hnext]
      exact ih hr

/-- **The receive manager refines a bounded queue of capacity 256.**  Over any calls after
`init_node_recv_manager`, the results are those of a run of the queue: `get_free_node` is refused
exactly when 256 slots are outstanding and `get_buzy_node` exactly when none is, no slot is
outstanding twice, slots come back in the order they were handed out, and `count_node` is the
length of the queue.  The positions handed out count up from 0 and wrap at 256. -/
theorem nodeRecvManager_refines_fifo (input : NodeRecvManager) (ops : List ManagerOp) :
    let m := initNodeRecvManager input
    let cs := calls managerOp m ops
    let last := final managerOp m ops
    ∃ q : List (Fin 256), Run 256 [] cs q ∧ q.Nodup ∧ puts cs = takes cs ++ q ∧
      puts cs = window 0 (puts cs).length ∧ countNode last = q.length ∧
      ((getFreeNode last).1 = none ↔ q.length = 256) ∧
      ((getBuzyNode last).1 = none ↔ q = []) := by
  intro m cs last
  have hinit : Outstanding m [] := .init input
  obtain ⟨q, hrun, hq⟩ := exists_run_of_simulation managerOp_step ops hinit
  refine ⟨q, hrun, hq.nodup, by simpa using hrun.puts_eq, puts_eq_window ops hinit,
    hq.countNode_eq, ?_, ?_⟩
  · rcases Nat.lt_or_eq_of_le hq.length_le with hlt | hfull
    · rw [hq.getFreeNode_eq hlt]; simp; omega
    · rw [hq.getFreeNode_full hfull]; simp [hfull]
  · cases q with
    | nil => rw [hq.getBuzyNode_nil]; simp
    | cons p q => rw [hq.getBuzyNode_eq]; simp

end DmmrOrbit
