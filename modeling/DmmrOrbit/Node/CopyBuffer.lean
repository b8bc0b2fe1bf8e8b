import DmmrOrbit.Node.RecvManager

/-!
# Copying out a busy slot

`copy_buffer` of `node_recv_manager.c` makes two searches.  It copies the node of the first busy
slot from `*pos` to the end of the array, and it removes, by `get_buzy_node`, the first busy slot
from `next_busy_index` on, around the array.  `firstBusy` is the one notion both are cases of:
the copied node is that of `firstBusy` of the positions from `*pos` to 255 (`copyScan_fst`) and the
slot removed is `firstBusy` of the window from `next_busy_index` (`getBuzyNode_fst`).

The position, the status bytes and the null case are always right.  What is copied is what is
removed exactly when the two slots hold the same node, or nothing is found from `*pos` on and
`*output` held that node before (`copyBuffer_copied_iff`).
-/

set_option autoImplicit false

namespace DmmrOrbit

open Cyclic

/-! ## The function of the source -/

/-- The `do … while` loop: what `*output` is after it and where `p` has stopped.  `fuel` is
`p1 - p`, the number of slots from `p` to the end of the array. -/
def copyScan (buffer : Fin 256 → NodeBuffer) (output : Node) : ℕ → ℕ → Node × ℕ
  | 0, p => (output, p)
  | fuel + 1, p =>
    if (buffer (Fin.ofNat 256 p)).nodeBufferStatus then ((buffer (Fin.ofNat 256 p)).node, p)
    else copyScan buffer output fuel (p + 1)

/-- What `copy_buffer` returns, and what it leaves in its arguments. -/
structure CopyResult where
  node : Option (Fin 256)
  manager : NodeRecvManager
  output : Node
  pos : Fin 256

/-- `copy_buffer`.  A `uint8_t` has passed the test `*pos < 0x100`. -/
def copyBuffer (m : NodeRecvManager) (output : Node) (pos : Fin 256) : CopyResult :=
  let scanned := copyScan m.buffer output (256 - pos) pos
  match getBuzyNode m with
  | (some current, m') => ⟨some current, m', scanned.1, current⟩
  | (none, m') => ⟨none, m', scanned.1, Fin.ofNat 256 (scanned.2 + 1)⟩

/-! ## The two searches -/

/-- The first busy slot in the order of `slots`. -/
def NodeRecvManager.firstBusy (m : NodeRecvManager) (slots : List (Fin 256)) : Option (Fin 256) :=
  slots.find? m.busy

/-- The copy takes the first busy slot from `p` to the end of the array. -/
theorem copyScan_fst (m : NodeRecvManager) (output : Node) (fuel p : ℕ) :
    (copyScan m.buffer output fuel p).1 =
      (m.firstBusy (window (Fin.ofNat 256 p) fuel)).elim output fun i ↦ (m.buffer i).node := by
  induction fuel generalizing p with
  | zero => rfl
  | succ fuel ih =>
    have hnext : Fin.ofNat 256 p + 1 = Fin.ofNat 256 (p + 1) := by
      rw [← shift_one]; exact Fin.ext (by simp)
    rw [copyScan, NodeRecvManager.firstBusy, window_cons, List.find?_cons]
    by_cases hbusy : (m.buffer (Fin.ofNat 256 p)).nodeBufferStatus = true
    · rw [if_pos hbusy, show m.busy (Fin.ofNat 256 p) = true from hbusy]
      rfl
    · rw [if_neg hbusy, ih,
        show m.busy (Fin.ofNat 256 p) = false from Bool.eq_false_of_not_eq_true hbusy, hnext]
      rfl

/-- The removal takes the first busy slot from `next_busy_index` on, around the array. -/
theorem getBuzyNode_fst (m : NodeRecvManager) :
    (getBuzyNode m).1 = m.firstBusy (window m.nextBusyIndex 256) := by
  have hscan : scan m.buffer true m.nextBusyIndex 256 m.nextBusyIndex =
      (window m.nextBusyIndex 256).find? m.busy := by
    rw [scan_full]
    simp only [beq_true]
    rfl
  rw [getBuzyNode, NodeRecvManager.firstBusy]
  split
  · next i hi => exact hi.symm.trans hscan
  · next hn => exact hn.symm.trans hscan

/-! ## What is copied, and what is removed -/

/-- A call does what it should: the node it returns is the one copied, its position is stored and
its slot is the only one to change its status; and with no slot busy nothing happens. -/
structure CopiesRemoved (m : NodeRecvManager) (output : Node) (pos : Fin 256) : Prop where
  copied : ∀ i, (copyBuffer m output pos).node = some i →
    (copyBuffer m output pos).output = ((copyBuffer m output pos).manager.buffer i).node
  position : ∀ i, (copyBuffer m output pos).node = some i → (copyBuffer m output pos).pos = i
  status : ∀ i, (copyBuffer m output pos).node = some i →
    ∀ j, ((copyBuffer m output pos).manager.busy j ≠ m.busy j ↔ j = i)
  idle : (∀ i, m.busy i = false) → (copyBuffer m output pos).node = none ∧
    (copyBuffer m output pos).output = output ∧
    (copyBuffer m output pos).manager.busy = m.busy

/-- The first busy slot from `*pos` to the end of the array, where there is one, holds the same node
as the first busy slot from `next_busy_index` on; where there is none, `*output` does. -/
def SameNode (m : NodeRecvManager) (output : Node) (pos : Fin 256) : Prop :=
  ∀ b, m.firstBusy (window m.nextBusyIndex 256) = some b →
    ((m.firstBusy (window pos (256 - pos))).elim output fun c ↦ (m.buffer c).node) =
      (m.buffer b).node

section

variable (m : NodeRecvManager) (output : Node) (pos : Fin 256)

theorem copyBuffer_node :
    (copyBuffer m output pos).node = m.firstBusy (window m.nextBusyIndex 256) := by
  rw [← getBuzyNode_fst, copyBuffer]
  split <;> next h => rw [h]

theorem copyBuffer_output : (copyBuffer m output pos).output =
    (m.firstBusy (window pos (256 - pos))).elim output fun c ↦ (m.buffer c).node := by
  have hscan := copyScan_fst m output (256 - pos) pos
  rw [show Fin.ofNat 256 (pos : ℕ) = pos from Fin.ext (Nat.mod_eq_of_lt pos.isLt)] at hscan
  rw [← hscan, copyBuffer]
  split <;> rfl

theorem copyBuffer_manager : (copyBuffer m output pos).manager = (getBuzyNode m).2 := by
  rw [copyBuffer]
  split <;> next h => rw [h]

theorem copyBuffer_pos {i : Fin 256} (h : (copyBuffer m output pos).node = some i) :
    (copyBuffer m output pos).pos = i := by
  cases hcall : getBuzyNode m with
  | mk found m' =>
    cases found with
    | none => simp [copyBuffer, hcall] at h
    | some current => simpa [copyBuffer, hcall] using h

/-- Only the slot removed changes its status. -/
theorem copyBuffer_status {i : Fin 256} (h : (copyBuffer m output pos).node = some i)
    (j : Fin 256) : (copyBuffer m output pos).manager.busy j ≠ m.busy j ↔ j = i := by
  rw [copyBuffer_node, ← getBuzyNode_fst] at h
  have hcall : getBuzyNode m = (some i, (getBuzyNode m).2) := Prod.ext h rfl
  obtain ⟨hbusy, hstatus⟩ := getBuzyNode_some hcall
  rw [copyBuffer_manager, NodeRecvManager.busy, hstatus]
  by_cases hj : j = i
  · subst hj
    simp [NodeRecvManager.busy, hbusy]
  · simp [hj, NodeRecvManager.busy]

/-- With no slot busy neither search finds anything. -/
theorem firstBusy_eq_none {m : NodeRecvManager} (h : ∀ i, m.busy i = false)
    (slots : List (Fin 256)) : m.firstBusy slots = none :=
  List.find?_eq_none.2 fun i _ ↦ by rw [h i]; decide

theorem copyBuffer_idle (h : ∀ i, m.busy i = false) : (copyBuffer m output pos).node = none ∧
    (copyBuffer m output pos).output = output ∧
    (copyBuffer m output pos).manager.busy = m.busy := by
  refine ⟨?_, ?_, ?_⟩
  · rw [copyBuffer_node, firstBusy_eq_none h]
  · rw [copyBuffer_output, firstBusy_eq_none h]; rfl
  · have hcall : getBuzyNode m = (none, (getBuzyNode m).2) :=
      Prod.ext ((getBuzyNode_fst m).trans (firstBusy_eq_none h _)) rfl
    rw [copyBuffer_manager, getBuzyNode_none hcall]

/-- **`copy_buffer` copies what it removes exactly when its two searches agree**: the slot found
from `*pos` to the end of the array holds the node of the slot found from `next_busy_index` on, or
there is none and `*output` held that node already. -/
theorem copyBuffer_copied_iff : CopiesRemoved m output pos ↔ SameNode m output pos := by
  constructor
  · intro h b hb
    have hcopied := h.copied b (by rw [copyBuffer_node, hb])
    rwa [copyBuffer_output, copyBuffer_manager, getBuzyNode_node] at hcopied
  · intro h
    refine ⟨fun i hi ↦ ?_, fun i hi ↦ copyBuffer_pos m output pos hi,
      fun i hi j ↦ copyBuffer_status m output pos hi j, copyBuffer_idle m output pos⟩
    rw [copyBuffer_node] at hi
    rw [copyBuffer_output, copyBuffer_manager, getBuzyNode_node]
    exact h i hi

end

/-! ## A reachable disagreement -/

/-- What can be done with a manager: its two getters, writing a node into a slot, giving a slot
back. -/
inductive ManagerEvent
  | getFree
  | getBuzy
  | fill (pos : Fin 256) (n : Node)
  | recicle (pos : Fin 256)

def managerEvent (m : NodeRecvManager) : ManagerEvent → NodeRecvManager
  | .getFree => (getFreeNode m).2
  | .getBuzy => (getBuzyNode m).2
  | .fill pos n => m.storeNode pos n
  | .recicle pos => recicleNode m pos

/-- With slots 0 and 1 busy and `*pos = 1`, the node of slot 1 is copied and slot 0 is removed. -/
theorem copyBuffer_copies_another : ¬ ∀ (input : NodeRecvManager) (events : List ManagerEvent)
    (output : Node) (pos : Fin 256),
    CopiesRemoved (events.foldl managerEvent (initNodeRecvManager input)) output pos := by
  intro h
  have hall := h (.zero .mtu1500)
    [.getFree, .getFree, .fill 1 { Node.zero .mtu1500 with valueSize := 1 }] (.zero .mtu1500) 1
  have hcopied := hall.copied 0 (by rfl)
  have hsize := congrArg Node.valueSize hcopied
  exact absurd hsize (by decide)

end DmmrOrbit
