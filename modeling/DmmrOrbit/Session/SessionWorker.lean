import Mathlib.Data.List.Nodup
import Mathlib.Data.List.Range
import DmmrOrbit.CircleBuffer.Ring
import DmmrOrbit.Lib.Transition
import DmmrOrbit.Structs

/-!
# The session worker on the ring

`session_worker` of `session_connection.c` next to the thread that writes the ring.  The writer
stores a node at `this->cursor` and moves the cursor on; the worker processes the slot at
`conn->cursor`, waits until `is_behind_cursor` says that the writer is elsewhere, and moves on
itself.

The worker processes *before* it waits.  The slot it looks at is the one the writer will fill next
unless the writer is already ahead, which is just what the comment in `__is_behind_cursor` calls
not safe; what it finds there is left over from before the session or from the previous lap.

Contents carry a stamp, the number of the write that put them there (`none` for what was in the ring
when the session started).  `sessionWorker_fresh_iff` says that, with the writer kept less than a
lap ahead, the worker sees every write once and nothing else if and only if it only ever processes a
slot that is behind the cursor.
-/

set_option autoImplicit false

namespace DmmrOrbit

open Transition

variable {N : ℕ}

/-! ## The two threads -/

/-- The contents of a slot, and the write that put them there. -/
structure Content where
  node : Node
  write : Option ℕ

/-- The ring with its writer and one session worker.  `processing` tells which half of its loop the
worker is in: about to process the slot at `conn`, or waiting to move on.  The last four fields are
the history: how many nodes were written and how often the worker moved on, what it processed, and
whether a content was overwritten that it had not processed. -/
structure SessionRing (N : ℕ) where
  ring : Fin N → Content
  cursor : Elm N
  conn : Elm N
  processing : Bool
  written : ℕ
  advanced : ℕ
  processed : List Content
  lost : Bool

inductive SessionEvent
  | write (n : Node)
  | process
  | advance

/-- A session that starts after the writer has moved `start` times, on any ring contents. -/
def sessionStart [NeZero N] (ring : Fin N → Node) (start : ℕ) : SessionRing N where
  ring i := ⟨ring i, none⟩
  cursor := fowardCurrentNode^[start] circleqFirst
  conn := fowardCurrentNode^[start] circleqFirst
  processing := true
  written := 0
  advanced := 0
  processed := []
  lost := false

/-- The content is one of the session's, and the worker has not processed it. -/
def SessionRing.unprocessed (s : SessionRing N) (c : Content) : Bool :=
  c.write.isSome && !(s.processed.map Content.write).contains c.write

def sessionStep [NeZero N] (l : RingLayout) (s : SessionRing N) :
    SessionEvent → Option (SessionRing N)
  | .write n =>
    match s.cursor with
    | .entry i =>
      some { s with
        ring := Function.update s.ring i ⟨n, some s.written⟩
        cursor := fowardCurrentNode s.cursor
        written := s.written + 1
        lost := s.lost || s.unprocessed (s.ring i) }
    | .head => none
  | .process =>
    match s.conn with
    | .entry i =>
      if s.processing then
        some { s with processed := s.processed ++ [s.ring i], processing := false }
      else none
    | .head => none
  | .advance =>
    if !s.processing && isBehindCursor l s.conn s.cursor then
      some { s with
        conn := iterate s.conn
        advanced := s.advanced + 1
        processing := true }
    else none

/-- The writer never gets a full lap ahead of the worker. -/
def SessionRing.LapOk (s : SessionRing N) : SessionEvent → Prop
  | .write _ => s.written + 1 - s.advanced < N - 1
  | .process => True
  | .advance => True

instance (s : SessionRing N) (e : SessionEvent) : Decidable (s.LapOk e) := by
  cases e <;> unfold SessionRing.LapOk <;> infer_instance

/-! ## What the worker should see -/

/-- No stale node, no duplicate, no loss. -/
structure SessionRing.Fresh (s : SessionRing N) : Prop where
  fresh : ∀ c ∈ s.processed, c.write ≠ none
  nodup : (s.processed.map Content.write).Nodup
  kept : s.lost = false

/-- The worker only processes a slot that is behind the cursor. -/
def SessionRing.StepOk (l : RingLayout) (s : SessionRing N) : SessionEvent → Prop
  | .process => isBehindCursor l s.conn s.cursor = true
  | .write _ => True
  | .advance => True

/-- What the slot that write `w` will go to holds before it: the write of a lap before, if there
was one. -/
def lapBefore (N w : ℕ) : Option ℕ := if w < N - 1 then none else some (w - (N - 1))

/-- What a run in good order keeps. -/
structure SessionRing.Inv (hN : 2 ≤ N) (start : ℕ) (s : SessionRing N) : Prop where
  cursor : s.cursor = .entry (slot hN (start + s.written))
  conn : s.conn = .entry (slot hN (start + s.advanced))
  le : s.advanced ≤ s.written
  lap : s.written - s.advanced < N - 1
  ring : ∀ w, s.written ≤ w → w < s.written + (N - 1) →
    (s.ring (slot hN (start + w))).write = lapBefore N w
  processed : s.processed.map Content.write =
    (List.range (s.advanced + if s.processing then 0 else 1)).map some
  seen : s.processing = false → s.advanced < s.written
  kept : s.lost = false

namespace SessionRing.Inv

variable {hN : 2 ≤ N} {start : ℕ} {l : RingLayout} {s t : SessionRing N}

theorem fresh (h : s.Inv hN start) : s.Fresh := by
  refine ⟨fun c hc hnone ↦ ?_, ?_, h.kept⟩
  · have hmem : c.write ∈ s.processed.map Content.write := List.mem_map_of_mem hc
    rw [h.processed, hnone] at hmem
    simp at hmem
  · rw [h.processed]
    exact List.Nodup.map (fun a b hab ↦ Option.some.inj hab) List.nodup_range

/-- The worker has processed every write before its position. -/
theorem mem_processed (h : s.Inv hN start) {w : ℕ} (hw : w < s.advanced) :
    some w ∈ s.processed.map Content.write := by
  rw [h.processed]
  exact List.mem_map_of_mem (List.mem_range.2 (by omega))

/-- Being behind the cursor means that the slot has been written. -/
theorem isBehind_iff (h : s.Inv hN start) :
    isBehindCursor l s.conn s.cursor = true ↔ s.advanced < s.written := by
  rw [h.conn, h.cursor, isBehindCursor_iff]
  constructor
  · intro hne
    exact lt_of_le_of_ne h.le fun heq ↦ hne (by rw [heq])
  · intro hlt heq
    have hlap := h.lap
    have := slot_inj hN (show start + s.advanced ≤ start + s.written by omega) (by omega) heq
    omega

variable [NeZero N]

theorem init (hN : 2 ≤ N) (start : ℕ) (ring : Fin N → Node) :
    (sessionStart ring start).Inv hN start where
  cursor := foward_iterate hN start
  conn := foward_iterate hN start
  le := Nat.le_refl 0
  lap := by show 0 - 0 < N - 1; omega
  ring w _ hw := by
    have hlt : w < N - 1 := by simpa [sessionStart] using hw
    rw [lapBefore, if_pos hlt]; rfl
  processed := rfl
  seen h := absurd h (by simp [sessionStart])
  kept := rfl

/-- Writing within the lap overwrites a slot the worker is done with. -/
theorem write_step (h : s.Inv hN start) (n : Node) (hlap : s.LapOk (.write n))
    (hs : sessionStep l s (.write n) = some t) : t.Inv hN start := by
  have hle := h.le
  have hbound : s.written + 1 - s.advanced < N - 1 := hlap
  rw [sessionStep, h.cursor] at hs
  obtain rfl := Option.some.inj hs
  have hold : s.unprocessed (s.ring (slot hN (start + s.written))) = false := by
    have hcontent := h.ring s.written (Nat.le_refl _) (by omega)
    rw [SessionRing.unprocessed, hcontent, lapBefore]
    split
    · rfl
    · have hmem := h.mem_processed (w := s.written - (N - 1)) (by omega)
      simpa using hmem
  -- the slot just written now stands for the write of the next lap
  have hring : ∀ w, s.written + 1 ≤ w → w < s.written + 1 + (N - 1) →
      (Function.update s.ring (slot hN (start + s.written)) ⟨n, some s.written⟩
        (slot hN (start + w))).write = lapBefore N w := by
    intro w hw hw'
    by_cases hlast : w = s.written + (N - 1)
    · rw [hlast, ← Nat.add_assoc, slot_add_lap, Function.update_self, lapBefore,
        if_neg (by omega)]
      simp
    · have hne : slot hN (start + w) ≠ slot hN (start + s.written) := fun heq ↦ by
        have := slot_inj hN (show start + s.written ≤ start + w by omega) (by omega) heq.symm
        omega
      rw [Function.update_of_ne hne]
      exact h.ring w (by omega) (by omega)
  have hkept : (s.lost || s.unprocessed (s.ring (slot hN (start + s.written)))) = false := by
    rw [h.kept, hold]; rfl
  exact ⟨foward_slot hN (start + s.written), h.conn, Nat.le_succ_of_le hle, hbound, hring,
    h.processed, fun hp ↦ Nat.lt_succ_of_lt (h.seen hp), hkept⟩

/-- Moving on from a slot that was processed. -/
theorem advance_step (h : s.Inv hN start) (hs : sessionStep l s .advance = some t) :
    t.Inv hN start := by
  rw [sessionStep] at hs
  split at hs
  · next hready =>
    rw [Bool.and_eq_true, Bool.not_eq_true'] at hready
    have hlt := h.seen hready.1
    have hlap := h.lap
    have hconn : iterate s.conn = .entry (slot hN (start + (s.advanced + 1))) := by
      rw [h.conn]
      exact iterate_slot hN (start + s.advanced)
    have hlap' : s.written - (s.advanced + 1) < N - 1 := by omega
    have hprocessed : s.processed.map Content.write =
        (List.range (s.advanced + 1 + 0)).map some := by
      rw [h.processed, hready.1]
      rfl
    obtain rfl := Option.some.inj hs
    exact ⟨h.cursor, hconn, hlt, hlap', h.ring, hprocessed, fun hp ↦ absurd hp (by simp), h.kept⟩
  · exact absurd hs (by simp)

/-- What the worker finds in its slot, `w` being the write it stands for. -/
theorem process_cases (h : s.Inv hN start) (hs : sessionStep l s .process = some t) :
    s.processing = true ∧
      t = { s with processed := s.processed ++ [s.ring (slot hN (start + s.advanced))],
                   processing := false } := by
  rw [sessionStep, h.conn] at hs
  simp only at hs
  split at hs
  · next hp => exact ⟨hp, (Option.some.inj hs).symm.trans (by rw [h.conn])⟩
  · exact absurd hs (by simp)

/-- Behind the cursor it finds the write it is waiting for. -/
theorem process_step (h : s.Inv hN start) (hok : s.StepOk l .process)
    (hs : sessionStep l s .process = some t) : t.Inv hN start := by
  obtain ⟨hp, rfl⟩ := h.process_cases hs
  have hlt : s.advanced < s.written := h.isBehind_iff.1 hok
  have hlap := h.lap
  have hcontent : (s.ring (slot hN (start + s.advanced))).write = some s.advanced := by
    have := h.ring (s.advanced + (N - 1)) (by omega) (by omega)
    rw [← Nat.add_assoc, slot_add_lap, lapBefore, if_neg (by omega)] at this
    rw [this]
    simp
  have hprocessed : (s.processed ++ [s.ring (slot hN (start + s.advanced))]).map Content.write =
      (List.range (s.advanced + 1)).map some := by
    rw [List.map_append, h.processed, hp, List.map_singleton, hcontent, List.range_succ,
      List.map_append]
    rfl
  exact ⟨h.cursor, h.conn, h.le, h.lap, h.ring, hprocessed, fun _ ↦ hlt, h.kept⟩

/-- On the cursor it finds something old. -/
theorem process_bad (h : s.Inv hN start) (hbad : ¬ s.StepOk l .process)
    (hs : sessionStep l s .process = some t) : ¬ t.Fresh := by
  intro hf
  obtain ⟨hp, rfl⟩ := h.process_cases hs
  have hle := h.le
  have heq : s.advanced = s.written := by
    have hnot : ¬ s.advanced < s.written := fun hlt ↦ hbad (h.isBehind_iff.2 hlt)
    omega
  have hcontent : (s.ring (slot hN (start + s.advanced))).write = lapBefore N s.written := by
    rw [heq]; exact h.ring s.written (Nat.le_refl _) (by omega)
  rw [lapBefore] at hcontent
  split at hcontent
  · exact hf.fresh _ (by simp) hcontent
  · -- left over from the previous lap, so processed a lap ago
    have hmem := h.mem_processed (w := s.written - (N - 1)) (by omega)
    have hnodup := hf.nodup
    rw [List.map_append, List.map_singleton, hcontent] at hnodup
    exact (List.nodup_append.1 hnodup).2.2 _ hmem _ (List.mem_singleton_self _) rfl

end SessionRing.Inv

/-- **The session worker sees every write once exactly when it stays behind the cursor.**  For every
ring of at least two entries and every interleaving in which the writer never gets a full lap ahead,
there is no stale node, no duplicate and no loss throughout the run if and only if every slot the
worker processed was behind the cursor at the time. -/
theorem sessionWorker_fresh_iff [NeZero N] (hN : 2 ≤ N) (l : RingLayout) (ring : Fin N → Node)
    (start : ℕ) (es : List SessionEvent) :
    Always (restrict (sessionStep l) SessionRing.LapOk) SessionRing.Fresh
        (sessionStart ring start) es ↔
      Guarded (restrict (sessionStep l) SessionRing.LapOk) (SessionRing.StepOk l)
        (sessionStart ring start) es := by
  refine always_iff_guarded (SessionRing.Inv hN start) (fun _ h ↦ h.fresh) ?_ ?_ es
    (.init hN start ring)
  · intro s e t h hok hs
    obtain ⟨hlap, hs⟩ := restrict_eq_some.1 hs
    cases e with
    | write n => exact h.write_step n hlap hs
    | process => exact h.process_step hok hs
    | advance => exact h.advance_step hs
  · intro s e t h hbad hs
    obtain ⟨hlap, hs⟩ := restrict_eq_some.1 hs
    cases e with
    | write n => exact absurd trivial hbad
    | process => exact h.process_bad hbad hs
    | advance => exact absurd trivial hbad

theorem sessionWorker_fresh_iff_four : Always
      (restrict (sessionStep ⟨0x1000, 0x800, 1520, by decide⟩) SessionRing.LapOk)
      SessionRing.Fresh (sessionStart (fun _ : Fin 4 ↦ .zero .mtu1500) 0)
      [.write (.zero .mtu1500), .process] ↔
    Guarded (restrict (sessionStep ⟨0x1000, 0x800, 1520, by decide⟩) SessionRing.LapOk)
      (SessionRing.StepOk ⟨0x1000, 0x800, 1520, by decide⟩)
      (sessionStart (fun _ : Fin 4 ↦ .zero .mtu1500) 0)
      [.write (.zero .mtu1500), .process] :=
  sessionWorker_fresh_iff (by decide) _ _ _ _

/-- A session on a fresh ring: the worker processes a slot before anything was written to it. -/
theorem sessionWorker_not_fresh : ¬ Always
    (restrict (sessionStep ⟨0x1000, 0x800, 1520, by decide⟩) SessionRing.LapOk)
    SessionRing.Fresh (sessionStart (fun _ : Fin 4 ↦ .zero .mtu1500) 0) [.process] := by
  intro hA
  have hfresh := ((always_cons_some rfl).1 hA).2.fresh
  exact absurd rfl (hfresh ⟨.zero .mtu1500, none⟩ (.head _))

end DmmrOrbit
