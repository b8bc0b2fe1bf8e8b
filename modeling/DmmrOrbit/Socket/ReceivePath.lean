import DmmrOrbit.Lib.Transition
import DmmrOrbit.Node.RecvManager

/-!
# From the receivers to the ring

The way of a payload through three threads' hands: a receiver acquires a slot of its manager and
fills it; its callback, `on_receive_connection_cb`, takes the slot off the manager with
`get_buzy_node` and appends an entry with the slot's address to the fifo; the fifo worker removes
the oldest entry and copies the node it points at.

`get_buzy_node` frees the slot at the moment its address goes into the fifo, so nothing keeps the
receiver from acquiring and filling it again while the entry waits.  (`copy_buffer`, next to
`get_buzy_node` in `node_recv_manager.c`, copies the node out before it frees the slot; nothing
calls it.)  What protects the payload is only that a manager hands out its 256 slots in turn.

There may be any number of receivers, with one fifo between them.  `receivePath_stable_iff` says
that payloads are stable and no slot in the fifo is refilled if and only if at every fill the slots
a manager has in the fifo and the ones it has outstanding are 256 at most.
-/

set_option autoImplicit false

namespace DmmrOrbit

open Cyclic Transition

variable {ι : Type} [DecidableEq ι]

/-! ## The threads -/

/-- Where a receiver is: at the head of its loop, with a slot it is about to fill, or in its
callback. -/
inductive ReceiverPc
  | idle
  | filling (pos : Fin 256)
  | callback
  deriving DecidableEq, Repr

structure Receiver where
  manager : NodeRecvManager
  pc : ReceiverPc

/-- An entry of the fifo: whose slot it points at, and what the slot contained when the entry was
appended. -/
structure QueuedNode (ι : Type) where
  owner : ι
  pos : Fin 256
  content : Node

/-- All receivers and the fifo.  The last two fields are the history: for each copy what the slot
contained when its entry was appended and what was copied, and whether a slot was filled while an
entry pointed at it. -/
structure ReceivePath (ι : Type) where
  receivers : ι → Receiver
  fifo : List (QueuedNode ι)
  copied : List (Node × Node)
  refilled : Bool

/-- A step of a receiver, of its callback, or of the fifo worker.  `skip` is a receive that brings
no data, and `leave` a callback that ends because there is no fifo entry to be had. -/
inductive PathEvent (ι : Type)
  | acquire (i : ι)
  | fill (i : ι) (n : Node)
  | skip (i : ι)
  | take (i : ι)
  | leave (i : ι)
  | work

/-- The receivers before their loops. -/
def receivePath (managers : ι → NodeRecvManager) : ReceivePath ι where
  receivers i := ⟨initNodeRecvManager (managers i), .idle⟩
  fifo := []
  copied := []
  refilled := false

namespace ReceivePath

def setReceiver (s : ReceivePath ι) (i : ι) (r : Receiver) : ReceivePath ι :=
  { s with receivers := Function.update s.receivers i r }

/-- The node an entry of the fifo points at. -/
def nodeAt (s : ReceivePath ι) (e : QueuedNode ι) : Node :=
  ((s.receivers e.owner).manager.buffer e.pos).node

/-- The slots of a manager that entries of the fifo point at, oldest first. -/
def backlog (s : ReceivePath ι) (i : ι) : List (Fin 256) :=
  (s.fifo.filter fun e ↦ e.owner = i).map QueuedNode.pos

end ReceivePath

def pathStep (s : ReceivePath ι) : PathEvent ι → Option (ReceivePath ι)
  | .acquire i =>
    match (s.receivers i).pc with
    | .idle =>
      match getFreeNode (s.receivers i).manager with
      | (some pos, m) => some (s.setReceiver i ⟨m, .filling pos⟩)
      | (none, _) => some s
    | _ => none
  | .fill i n =>
    match (s.receivers i).pc with
    | .filling pos =>
      some { s.setReceiver i ⟨(s.receivers i).manager.storeNode pos n, .callback⟩ with
        refilled := s.refilled || (s.backlog i).contains pos }
    | _ => none
  | .skip i =>
    match (s.receivers i).pc with
    | .filling _ => some (s.setReceiver i ⟨(s.receivers i).manager, .idle⟩)
    | _ => none
  | .take i =>
    match (s.receivers i).pc with
    | .callback =>
      match getBuzyNode (s.receivers i).manager with
      | (some pos, m) =>
        some { s.setReceiver i ⟨m, .callback⟩ with
          fifo := s.fifo ++ [⟨i, pos, (m.buffer pos).node⟩] }
      | (none, m) => some (s.setReceiver i ⟨m, .idle⟩)
    | _ => none
  | .leave i =>
    match (s.receivers i).pc with
    | .callback => some (s.setReceiver i ⟨(s.receivers i).manager, .idle⟩)
    | _ => none
  | .work =>
    match s.fifo with
    | [] => none
    | e :: fifo => some { s with fifo := fifo, copied := s.copied ++ [(e.content, s.nodeAt e)] }

/-! ## What should hold -/

/-- What is copied for an entry is what its slot contained when it was appended, and no slot was
filled while an entry pointed at it. -/
structure ReceivePath.Stable (s : ReceivePath ι) : Prop where
  copied : ∀ c ∈ s.copied, c.2 = c.1
  refilled : s.refilled = false

/-- The fills that go well: the manager's slots in the fifo and its busy ones are 256 at most. -/
def ReceivePath.StepOk (s : ReceivePath ι) : PathEvent ι → Prop
  | .fill i _ => (s.backlog i).length + countNode (s.receivers i).manager ≤ 256
  | _ => True

/-! ## One receiver -/

/-- The slots in the fifo, `f`, and the outstanding ones, `q`, follow one another round the
manager; the slot being filled is the last of them. -/
structure Receiver.Tracked (r : Receiver) (f q : List (Fin 256)) : Prop where
  base : ∃ b, f = window b f.length ∧ r.manager.nextBusyIndex = shift b f.length
  outstanding : Outstanding r.manager q
  filling : ∀ pos, r.pc = .filling pos → ∃ q', q = q' ++ [pos]

namespace Receiver.Tracked

variable {r : Receiver} {f q : List (Fin 256)}

theorem init (m : NodeRecvManager) : (⟨initNodeRecvManager m, .idle⟩ : Receiver).Tracked [] [] :=
  ⟨⟨0, rfl, rfl⟩, .init m, fun _ h ↦ absurd h (by simp)⟩

/-- The slot being filled is in the fifo exactly when slots in the fifo and outstanding ones do not
fit into the manager together. -/
theorem mem_iff (h : r.Tracked f q) {pos : Fin 256} (hpc : r.pc = .filling pos) :
    pos ∈ f ↔ 256 < f.length + q.length := by
  obtain ⟨b, hf, hbusy⟩ := h.base
  obtain ⟨q', rfl⟩ := h.filling pos hpc
  have hle := h.outstanding.length_le
  rw [List.length_append, List.length_singleton] at hle
  have hpos : pos = shift b (f.length + q'.length) := by
    have hw := h.outstanding.eq_window
    rw [List.length_append, List.length_singleton, window_succ, hbusy, shift_shift] at hw
    exact (List.cons.inj (List.append_inj_right' hw rfl)).1
  rw [hpos, hf, length_window, shift_add_mem_window_iff (by omega), List.length_append,
    List.length_singleton]
  omega

theorem acquire (h : r.Tracked f q) {pos : Fin 256} {m : NodeRecvManager}
    (hg : getFreeNode r.manager = (some pos, m)) :
    (⟨m, .filling pos⟩ : Receiver).Tracked f (q ++ [pos]) := by
  obtain ⟨b, hf, hbusy⟩ := h.base
  rcases Nat.lt_or_eq_of_le h.outstanding.length_le with hlt | hfull
  · have heq := h.outstanding.getFreeNode_eq hlt
    have hout := h.outstanding.acquire hlt
    rw [hg] at heq hout
    obtain ⟨hpos, rfl⟩ := Prod.mk.inj heq
    obtain rfl := Option.some.inj hpos
    refine ⟨⟨b, hf, hbusy⟩, hout, fun pos' hp ↦ ⟨q, ?_⟩⟩
    rw [ReceiverPc.filling.inj hp]
  · rw [h.outstanding.getFreeNode_full hfull] at hg
    exact absurd (Prod.mk.inj hg).1 (by simp)

/-- Leaving the slot as it is, filled or not. -/
theorem fill (h : r.Tracked f q) (pos : Fin 256) (n : Node) (pc : ReceiverPc)
    (hpc : ∀ p, pc ≠ .filling p) :
    (⟨r.manager.storeNode pos n, pc⟩ : Receiver).Tracked f q :=
  ⟨h.base, h.outstanding.fill pos n, fun p hp ↦ absurd hp (hpc p)⟩

theorem setPc (h : r.Tracked f q) (pc : ReceiverPc) (hpc : ∀ p, pc ≠ .filling p) :
    (⟨r.manager, pc⟩ : Receiver).Tracked f q :=
  ⟨h.base, h.outstanding, fun p hp ↦ absurd hp (hpc p)⟩

/-- The callback moves the oldest outstanding slot to the fifo. -/
theorem take {p : Fin 256} (h : r.Tracked f (p :: q)) (pc : ReceiverPc)
    (hpc : ∀ p, pc ≠ .filling p) :
    (⟨(getBuzyNode r.manager).2, pc⟩ : Receiver).Tracked (f ++ [p]) q := by
  obtain ⟨b, hf, hbusy⟩ := h.base
  have hp : p = shift b f.length := by
    have hw := h.outstanding.eq_window
    rw [List.length_cons, window_cons] at hw
    rw [(List.cons.inj hw).1, hbusy]
  refine ⟨⟨b, ?_, ?_⟩, h.outstanding.release, fun p hp ↦ absurd hp (hpc p)⟩
  · rw [List.length_append, List.length_singleton, window_succ, ← hf, ← hp]
  · rw [h.outstanding.getBuzyNode_eq, List.length_append, List.length_singleton, shift_succ, hp]

/-- The worker takes the oldest slot out of the fifo. -/
theorem work {p : Fin 256} (h : r.Tracked (p :: f) q) : r.Tracked f q := by
  obtain ⟨b, hf, hbusy⟩ := h.base
  rw [List.length_cons, window_cons] at hf
  refine ⟨⟨b + 1, (List.cons.inj hf).2, ?_⟩, h.outstanding, h.filling⟩
  rw [hbusy, List.length_cons, shift_add_one]

end Receiver.Tracked

/-! ## All receivers -/

/-- What all threads keep as long as every fill goes well: every manager's slots are tracked, and
the slots in the fifo still contain what they did when they were appended. -/
structure ReceivePath.Inv (s : ReceivePath ι) : Prop where
  tracked : ∀ i, ∃ q, (s.receivers i).Tracked (s.backlog i) q
  content : ∀ e ∈ s.fifo, s.nodeAt e = e.content
  stable : s.Stable

namespace ReceivePath

variable {s t : ReceivePath ι} {i : ι}

theorem mem_backlog {e : QueuedNode ι} (he : e ∈ s.fifo) : e.pos ∈ s.backlog e.owner :=
  List.mem_map_of_mem (List.mem_filter.2 ⟨he, by simp⟩)

/-- An entry appended for a slot of `i` shows in the backlog of `i` and in no other. -/
theorem backlog_append (s : ReceivePath ι) (e : QueuedNode ι) (j : ι) :
    ({ s with fifo := s.fifo ++ [e] } : ReceivePath ι).backlog j =
      if e.owner = j then s.backlog j ++ [e.pos] else s.backlog j := by
  rw [backlog, backlog, List.filter_append, List.map_append]
  by_cases hj : e.owner = j <;> simp [hj]

theorem Inv.init (managers : ι → NodeRecvManager) : (receivePath managers).Inv where
  tracked i := ⟨[], .init (managers i)⟩
  content _ he := absurd he List.not_mem_nil
  stable := ⟨fun _ hc ↦ absurd hc List.not_mem_nil, rfl⟩

/-- A step of one receiver that leaves the fifo alone, and the nodes it points at. -/
theorem Inv.setReceiver (h : s.Inv) {r : Receiver} {q : List (Fin 256)}
    (hr : r.Tracked (s.backlog i) q)
    (hnode : ∀ pos ∈ s.backlog i,
      (r.manager.buffer pos).node = ((s.receivers i).manager.buffer pos).node) :
    (s.setReceiver i r).Inv := by
  refine ⟨fun j ↦ ?_, fun e he ↦ ?_, h.stable.copied, h.stable.refilled⟩
  · show ∃ q, (Function.update s.receivers i r j).Tracked (s.backlog j) q
    by_cases hj : j = i
    · subst hj
      rw [Function.update_self]
      exact ⟨q, hr⟩
    · rw [Function.update_of_ne hj]
      exact h.tracked j
  · rw [← h.content e he]
    show ((Function.update s.receivers i r e.owner).manager.buffer e.pos).node = _
    by_cases hj : e.owner = i
    · subst hj
      rw [Function.update_self]
      exact hnode e.pos (mem_backlog he)
    · rw [Function.update_of_ne hj]
      rfl

theorem Inv.acquire_step (h : s.Inv) (hs : pathStep s (.acquire i) = some t) : t.Inv := by
  obtain ⟨q, hq⟩ := h.tracked i
  rw [pathStep] at hs
  split at hs
  · split at hs
    · next pos m hg =>
      obtain rfl := Option.some.inj hs
      have hnode := getFreeNode_node (s.receivers i).manager
      rw [hg] at hnode
      exact h.setReceiver (hq.acquire hg) fun pos _ ↦ hnode pos
    · obtain rfl := Option.some.inj hs
      exact h
  · exact absurd hs (by simp)

/-- The fill of a slot that no entry points at. -/
theorem Inv.fill_step (h : s.Inv) {n : Node} (hok : s.StepOk (.fill i n))
    (hs : pathStep s (.fill i n) = some t) : t.Inv := by
  obtain ⟨q, hq⟩ := h.tracked i
  rw [StepOk, hq.outstanding.countNode_eq] at hok
  rw [pathStep] at hs
  split at hs
  · next pos hpc =>
    obtain rfl := Option.some.inj hs
    have hnot : pos ∉ s.backlog i := fun hmem ↦ by
      have := (hq.mem_iff hpc).1 hmem
      omega
    have hset := h.setReceiver (hq.fill pos n .callback (by simp)) fun p hp ↦ by
      rw [NodeRecvManager.storeNode_node, if_neg]
      rintro rfl
      exact hnot hp
    refine ⟨hset.tracked, hset.content, hset.stable.copied, ?_⟩
    show (s.refilled || (s.backlog i).contains pos) = false
    rw [h.stable.refilled, Bool.false_or, List.contains_eq_mem, decide_eq_false hnot]
  · exact absurd hs (by simp)

/-- The fill of a slot that an entry points at. -/
theorem Inv.fill_bad (h : s.Inv) {n : Node} (hbad : ¬ s.StepOk (.fill i n))
    (hs : pathStep s (.fill i n) = some t) : ¬ t.Stable := by
  intro hstable
  obtain ⟨q, hq⟩ := h.tracked i
  rw [StepOk, hq.outstanding.countNode_eq] at hbad
  rw [pathStep] at hs
  split at hs
  · next pos hpc =>
    obtain rfl := Option.some.inj hs
    have hmem : pos ∈ s.backlog i := (hq.mem_iff hpc).2 (by omega)
    have hno : (s.refilled || (s.backlog i).contains pos) = false := hstable.refilled
    rw [List.contains_eq_mem, decide_eq_true hmem, Bool.or_true] at hno
    exact absurd hno (by simp)
  · exact absurd hs (by simp)

theorem Inv.skip_step (h : s.Inv) (hs : pathStep s (.skip i) = some t) : t.Inv := by
  obtain ⟨q, hq⟩ := h.tracked i
  rw [pathStep] at hs
  split at hs
  · obtain rfl := Option.some.inj hs
    exact h.setReceiver (hq.setPc .idle (by simp)) fun _ _ ↦ rfl
  · exact absurd hs (by simp)

theorem Inv.leave_step (h : s.Inv) (hs : pathStep s (.leave i) = some t) : t.Inv := by
  obtain ⟨q, hq⟩ := h.tracked i
  rw [pathStep] at hs
  split at hs
  · obtain rfl := Option.some.inj hs
    exact h.setReceiver (hq.setPc .idle (by simp)) fun _ _ ↦ rfl
  · exact absurd hs (by simp)

/-- The callback's step: the slot goes from the outstanding ones to the fifo, with its content. -/
theorem Inv.take_step (h : s.Inv) (hs : pathStep s (.take i) = some t) : t.Inv := by
  obtain ⟨q, hq⟩ := h.tracked i
  rw [pathStep] at hs
  split at hs
  · cases q with
    | nil =>
      rw [hq.outstanding.getBuzyNode_nil] at hs
      obtain rfl := Option.some.inj hs
      exact h.setReceiver (hq.setPc .idle (by simp)) fun _ _ ↦ rfl
    | cons pos q =>
      obtain ⟨m, hg, -, hnode⟩ := hq.outstanding.getBuzyNode_spec
      have hr := hq.take .callback (by simp)
      rw [hg] at hs hr
      obtain rfl := Option.some.inj hs
      refine ⟨fun j ↦ ?_, fun e he ↦ ?_, h.stable.copied, h.stable.refilled⟩
      · show ∃ q, (Function.update s.receivers i ⟨m, .callback⟩ j).Tracked
          (({ s with fifo := s.fifo ++ [⟨i, pos, (m.buffer pos).node⟩] } :
            ReceivePath ι).backlog j) q
        rw [s.backlog_append]
        by_cases hj : i = j
        · subst hj
          rw [Function.update_self, if_pos rfl]
          exact ⟨q, hr⟩
        · rw [Function.update_of_ne (Ne.symm hj), if_neg hj]
          exact h.tracked j
      · show ((Function.update s.receivers i ⟨m, .callback⟩ e.owner).manager.buffer e.pos).node = _
        rcases List.mem_append.1 he with hold | hnew
        · rw [← h.content e hold]
          by_cases hj : e.owner = i
          · rw [hj, Function.update_self, nodeAt, hj]
            exact hnode e.pos
          · rw [Function.update_of_ne hj]
            rfl
        · obtain rfl := List.mem_singleton.1 hnew
          rw [Function.update_self]
  · exact absurd hs (by simp)

/-- The worker's step copies the content the entry was appended with. -/
theorem Inv.work_step (h : s.Inv) (hs : pathStep s .work = some t) : t.Inv := by
  rw [pathStep] at hs
  split at hs
  · exact absurd hs (by simp)
  · next e fifo hfifo =>
    obtain rfl := Option.some.inj hs
    have hcontent : ∀ e' ∈ e :: fifo, s.nodeAt e' = e'.content := hfifo ▸ h.content
    refine ⟨fun j ↦ ?_, fun e' he' ↦ hcontent e' (List.mem_cons_of_mem e he'), fun c hc ↦ ?_,
      h.stable.refilled⟩
    · obtain ⟨q, hq⟩ := h.tracked j
      rw [backlog, hfifo, List.filter_cons] at hq
      by_cases hj : e.owner = j
      · rw [if_pos (by simpa using hj), List.map_cons] at hq
        exact ⟨q, hq.work⟩
      · rw [if_neg (by simpa using hj)] at hq
        exact ⟨q, hq⟩
    · rcases List.mem_append.1 hc with hold | hnew
      · exact h.stable.copied c hold
      · obtain rfl := List.mem_singleton.1 hnew
        exact hcontent e List.mem_cons_self

theorem Inv.step (h : s.Inv) (e : PathEvent ι) (hok : s.StepOk e) (hs : pathStep s e = some t) :
    t.Inv := by
  cases e with
  | acquire i => exact h.acquire_step hs
  | fill i n => exact h.fill_step hok hs
  | skip i => exact h.skip_step hs
  | take i => exact h.take_step hs
  | leave i => exact h.leave_step hs
  | work => exact h.work_step hs

theorem Inv.step_bad (h : s.Inv) (e : PathEvent ι) (hbad : ¬ s.StepOk e)
    (hs : pathStep s e = some t) : ¬ t.Stable := by
  cases e with
  | fill i n => exact h.fill_bad hbad hs
  | acquire i => exact absurd trivial hbad
  | skip i => exact absurd trivial hbad
  | take i => exact absurd trivial hbad
  | leave i => exact absurd trivial hbad
  | work => exact absurd trivial hbad

end ReceivePath

/-- **Payloads are stable exactly while no manager's backlog exceeds its slots.**  For any number of
receivers and every interleaving of their steps, their callbacks' and the fifo worker's, every entry
is copied with the content it was appended with and no slot in the fifo is refilled, if and only if
at every fill the manager's slots in the fifo and its busy ones are 256 at most. -/
theorem receivePath_stable_iff (managers : ι → NodeRecvManager) (es : List (PathEvent ι)) :
    Always pathStep ReceivePath.Stable (receivePath managers) es ↔
      Guarded pathStep ReceivePath.StepOk (receivePath managers) es :=
  always_iff_guarded ReceivePath.Inv (fun _ h ↦ h.stable) (fun _ e _ h hok ↦ h.step e hok)
    (fun _ e _ h hbad ↦ h.step_bad e hbad) es (.init managers)

/-! ## A worker that does not get its turn -/

/-- One payload's way into the fifo; the second `take` finds no busy slot and ends the callback. -/
def receiveTurn (n : Node) : List (PathEvent Unit) :=
  [.acquire (), .fill () n, .take (), .take ()]

namespace ReceivePath

variable {s : ReceivePath Unit}

/-- The receiver is at the head of its loop, with no slot outstanding. -/
structure Ready (s : ReceivePath Unit) : Prop extends s.Inv where
  idle : (s.receivers ()).pc = .idle
  empty : (s.receivers ()).Tracked (s.backlog ()) []

/-- From there it can acquire a slot, which is then the only one outstanding. -/
theorem Ready.acquire (h : s.Ready) :
    ∃ t pos, pathStep s (.acquire ()) = some t ∧ t.Inv ∧ t.backlog () = s.backlog () ∧
      (t.receivers ()).pc = .filling pos ∧ (t.receivers ()).Tracked (t.backlog ()) [pos] := by
  obtain ⟨m, hg, -⟩ := h.empty.outstanding.getFreeNode_spec (by decide)
  have hs : pathStep s (.acquire ()) =
      some (s.setReceiver () ⟨m, .filling (s.receivers ()).manager.nextFreeIndex⟩) := by
    rw [pathStep, h.idle]
    simp only [hg]
  exact ⟨_, _, hs, h.toInv.acquire_step hs, rfl, rfl, h.empty.acquire hg⟩

/-- With the fifo short of the whole manager the turn goes well and leaves one more entry. -/
theorem Ready.turn (h : s.Ready) (hlt : (s.backlog ()).length < 256) (n : Node) :
    ∃ t, run pathStep s (receiveTurn n) = some t ∧ t.Ready ∧
      (t.backlog ()).length = (s.backlog ()).length + 1 := by
  obtain ⟨a, pos, hsa, ha, hback, hpc, hta⟩ := h.acquire
  -- the fill: one slot is outstanding, and at most 255 are in the fifo
  have hok : a.StepOk (.fill () n) := by
    rw [StepOk, hta.outstanding.countNode_eq, hback, List.length_singleton]
    omega
  obtain ⟨b, hab, hbpc, hbb, htb⟩ : ∃ b, pathStep a (.fill () n) = some b ∧
      (b.receivers ()).pc = .callback ∧ b.backlog () = a.backlog () ∧
      (b.receivers ()).Tracked (b.backlog ()) [pos] := by
    rw [pathStep, hpc]
    exact ⟨_, rfl, rfl, rfl, hta.fill pos n .callback (by simp)⟩
  have hb := ha.fill_step hok hab
  -- the first `take` appends the entry
  obtain ⟨c, hbc, hcpc, hcb, htc⟩ : ∃ c, pathStep b (.take ()) = some c ∧
      (c.receivers ()).pc = .callback ∧ c.backlog () = b.backlog () ++ [pos] ∧
      (c.receivers ()).Tracked (c.backlog ()) [] := by
    obtain ⟨m, hg, -⟩ := htb.outstanding.getBuzyNode_spec
    have hr := htb.take .callback (by simp)
    rw [hg] at hr
    rw [pathStep, hbpc]
    simp only [hg]
    have hback := b.backlog_append ⟨(), pos, (m.buffer pos).node⟩ ()
    rw [if_pos rfl] at hback
    exact ⟨_, rfl, rfl, hback, hback ▸ hr⟩
  have hc := hb.take_step hbc
  -- the second finds nothing
  obtain ⟨d, hcd, hdpc, hdb, htd⟩ : ∃ d, pathStep c (.take ()) = some d ∧
      (d.receivers ()).pc = .idle ∧ d.backlog () = c.backlog () ∧
      (d.receivers ()).Tracked (d.backlog ()) [] := by
    rw [pathStep, hcpc, htc.outstanding.getBuzyNode_nil]
    exact ⟨_, rfl, rfl, rfl, htc.setPc .idle (by simp)⟩
  refine ⟨d, ?_, ⟨hc.take_step hcd, hdpc, htd⟩, ?_⟩
  · simp only [receiveTurn, run, hsa, hab, hbc, hcd]
  · rw [hdb, hcb, hbb, hback, List.length_append, List.length_singleton]

/-- With a whole manager in the fifo the next fill goes to a slot that waits there. -/
theorem Ready.turn_bad (h : s.Ready) (hfull : 256 ≤ (s.backlog ()).length) (n : Node)
    (es : List (PathEvent Unit)) : ¬ Always pathStep Stable s (receiveTurn n ++ es) := by
  intro hA
  obtain ⟨a, pos, hsa, ha, hback, hpc, hta⟩ := h.acquire
  obtain ⟨b, hab⟩ : ∃ b, pathStep a (.fill () n) = some b := by
    rw [pathStep, hpc]
    exact ⟨_, rfl⟩
  have hbad : ¬ a.StepOk (.fill () n) := by
    rw [StepOk, hta.outstanding.countNode_eq, hback, List.length_singleton]
    omega
  have hstable := ((always_cons_some hab).1 ((always_cons_some hsa).1 hA).2).2.head
  exact ha.fill_bad hbad hab hstable

/-- Every turn brings the fifo one entry closer to holding the whole manager. -/
theorem Ready.not_always (h : s.Ready) (n : Node) {k : ℕ}
    (hlen : (s.backlog ()).length + k = 256) :
    ¬ Always pathStep Stable s (List.replicate (k + 1) (receiveTurn n)).flatten := by
  rw [List.replicate_succ, List.flatten_cons]
  induction k generalizing s with
  | zero => exact h.turn_bad (by omega) n _
  | succ k ih =>
    intro hA
    obtain ⟨t, ht, hready, htlen⟩ := h.turn (by omega) n
    have hrest := hA.of_append ht
    rw [List.replicate_succ, List.flatten_cons] at hrest
    exact ih hready (by omega) hrest

end ReceivePath

/-- 257 payloads received while the worker does not run: the last one goes to the slot the first
entry of the fifo points at. -/
theorem receivePath_not_stable :
    ¬ Always pathStep ReceivePath.Stable (receivePath fun _ : Unit ↦ .zero .mtu1500)
      (List.replicate 257 (receiveTurn (.zero .mtu1500))).flatten :=
  ReceivePath.Ready.not_always ⟨.init _, rfl, .init _⟩ _ rfl

end DmmrOrbit
