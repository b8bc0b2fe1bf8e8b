import Mathlib.Data.List.Range
import Mathlib.Logic.Function.Iterate
import DmmrOrbit.CircleBuffer.Ring
import DmmrOrbit.Lib.Transition
import DmmrOrbit.Structs

/-!
# The fifo worker

`fifo_worker` of `dmmr_circle_buffer.c`: take what is in the fifo into the array `batch`, copy one
node per batch entry into the ring, start over.

Two things in it make the difference.  The write pointer `b` into `batch` is set before the loop and
never again, so a second batch is copied together with everything before it, and once `MAX_BATCH`
entries were taken nothing is taken off the fifo any more.  And the source of a copy is
`&(*batch_ptr)->n`, where `n` is already a pointer: what lands in the ring are the bytes from the
fifo entry on, not those of the node it points to.

To say that, the model has memory: a fifo entry is an address, its first eight bytes are the
pointer, and the two candidate sources of a copy are `sizeof(struct node)` bytes at either address.
`fifoWorker_faithful_iff` is the exact statement of when the worker does its job.
-/

set_option autoImplicit false

namespace DmmrOrbit

open Transition

variable {mtu : MtuProfile} {N : ℕ} [NeZero N]

/-! ## Memory -/

/-- The bytes of the program's memory. -/
abbrev Mem := ℕ → UInt8

def readBytes (mem : Mem) (addr len : ℕ) : List UInt8 :=
  (List.range len).map fun i ↦ mem (addr + i)

/-- A pointer read from memory, little-endian. -/
def readPtr (mem : Mem) (addr : ℕ) : ℕ :=
  (readBytes mem addr 8).foldr (fun byte acc ↦ byte.toNat + 256 * acc) 0

/-- `sizeof(struct node)`: 76 bytes before `value`, and the whole rounded up to a multiple of
eight. -/
def sizeofNode (mtu : MtuProfile) : ℕ := (76 + mtu.valueBufferSize + 7) / 8 * 8

/-! ## The worker -/

/-- An element of the fifo: the address of a `struct node_fifo_buffer`, and which append put it
there. -/
structure FifoEntry where
  addr : ℕ
  serial : ℕ

/-- A copy the worker made: for which append, to where, and what the node its entry points to
contained. -/
structure Copied (N : ℕ) where
  serial : ℕ
  pos : Elm N
  node : List UInt8

/-- The worker and what it works on.  `batch` is the array up to `b`; `pc` is the index of
`batch_ptr`, or `none` at the head of the outer loop.  The last four fields are the history: the
number of entries appended and of batches taken, the copies, and whether the fifo was ever found
non-empty without anything being taken off it. -/
structure FifoWorker (N : ℕ) where
  mem : Mem
  fifo : List FifoEntry
  batch : List FifoEntry
  pc : Option ℕ
  cursor : Elm N
  ring : Fin N → List UInt8
  appended : ℕ
  takes : ℕ
  log : List (Copied N)
  stalled : Bool

/-- `MAX_BATCH`. -/
def maxBatch : ℕ := 0x400

/-- The loop that fills `batch`. -/
def takeBatch (batch : List FifoEntry) : List FifoEntry → List FifoEntry × List FifoEntry
  | [] => (batch, [])
  | e :: fifo =>
    if batch.length < maxBatch then takeBatch (batch ++ [e]) fifo else (batch, e :: fifo)

/-- One copy: `__vcpy(slot, &(*batch_ptr)->n, sizeof(struct node))` and `foward_current_node`. -/
def FifoWorker.copyEntry (mtu : MtuProfile) (s : FifoWorker N) (e : FifoEntry) : FifoWorker N :=
  let bytes := readBytes s.mem e.addr (sizeofNode mtu)
  { s with
    ring := match s.cursor with
      | .entry i => Function.update s.ring i bytes
      | .head => s.ring
    cursor := fowardCurrentNode s.cursor
    log := s.log ++
      [⟨e.serial, s.cursor, readBytes s.mem (readPtr s.mem e.addr) (sizeofNode mtu)⟩] }

/-- What can happen: some thread writes to memory, `on_receive_connection_cb` appends an entry, the
worker takes what it finds in the fifo, or it makes one copy. -/
inductive FifoEvent
  | store (mem : Mem)
  | append (addr : ℕ)
  | take
  | copy

/-- `fifo_worker` before its loop, on the ring `start` built. -/
def fifoWorker (mtu : MtuProfile) (N : ℕ) [NeZero N] (mem : Mem) : FifoWorker N where
  mem := mem
  fifo := []
  batch := []
  pc := none
  cursor := circleqFirst
  ring _ := List.replicate (sizeofNode mtu) 0
  appended := 0
  takes := 0
  log := []
  stalled := false

def fifoStep (mtu : MtuProfile) (s : FifoWorker N) : FifoEvent → Option (FifoWorker N)
  | .store mem => some { s with mem := mem }
  | .append addr =>
    some { s with fifo := s.fifo ++ [⟨addr, s.appended⟩], appended := s.appended + 1 }
  | .take =>
    -- with an empty fifo the worker waits
    if s.pc = none ∧ s.fifo ≠ [] then
      let r := takeBatch s.batch s.fifo
      some { s with
        fifo := r.2
        batch := r.1
        pc := if r.1 ≠ [] then some 0 else none
        takes := s.takes + 1
        stalled := s.stalled || r.2.length == s.fifo.length }
    else none
  | .copy =>
    match s.pc with
    | none => none
    | some i =>
      match s.batch[i]? with
      | none => none
      | some e => some { s.copyEntry mtu e with
          pc := if i + 1 < s.batch.length then some (i + 1) else none }

/-! ## What the worker should do -/

/-- The worker's job: the copies are those of the appended entries, each once and in order; the
`k`-th goes to the position `k` moves from the start, an entry of the ring, which then holds the
node the fifo entry points to; and nothing is left behind. -/
structure FifoWorker.Faithful (s : FifoWorker N) : Prop where
  order : s.log.map Copied.serial = List.range s.log.length
  position : ∀ k c, s.log[k]? = some c → c.pos = fowardCurrentNode^[k] circleqFirst
  stored : ∀ c, s.log.getLast? = some c → ∃ i, c.pos = .entry i ∧ s.ring i = c.node
  complete : s.pc = none → s.log.length + s.fifo.length = s.appended
  taken : s.stalled = false

/-- The entry's own bytes happen to be those of the node it points to. -/
def Coincides (mtu : MtuProfile) (mem : Mem) (e : FifoEntry) : Prop :=
  readBytes mem e.addr (sizeofNode mtu) = readBytes mem (readPtr mem e.addr) (sizeofNode mtu)

/-- The steps that go well: the array has room for the batch; and a copy is made for the first
batch, at an entry of the ring, from an entry whose own bytes are those of its node. -/
def FifoWorker.StepOk (mtu : MtuProfile) (s : FifoWorker N) : FifoEvent → Prop
  | .store _ => True
  | .append _ => True
  | .take => s.batch.length < maxBatch
  | .copy => s.takes = 1 ∧ s.cursor ≠ .head ∧
      ∀ i e, s.pc = some i → s.batch[i]? = some e → Coincides mtu s.mem e

/-! ## One step -/

/-- What the loop that fills `batch` takes is a prefix of the fifo, empty only when the fifo is or
when the array is full. -/
theorem takeBatch_spec (fifo batch : List FifoEntry) :
    ∃ es, (takeBatch batch fifo).1 = batch ++ es ∧ fifo = es ++ (takeBatch batch fifo).2 ∧
      (es = [] ↔ fifo = [] ∨ maxBatch ≤ batch.length) := by
  induction fifo generalizing batch with
  | nil => exact ⟨[], by simp [takeBatch], by simp [takeBatch], by simp⟩
  | cons e fifo ih =>
    rw [takeBatch]
    split
    · next hlt =>
      obtain ⟨es, hbatch, hfifo, -⟩ := ih (batch ++ [e])
      refine ⟨e :: es, ?_, ?_, ?_⟩
      · rw [hbatch, List.append_assoc, List.singleton_append]
      · rw [List.cons_append, ← hfifo]
      · simp; omega
    · next hge => exact ⟨[], by simp, by simp, by simp; omega⟩

/-- Where the worker is in the part of a run that goes well: nothing taken yet, copying the first
batch, done with it, or about to copy it again. -/
inductive FifoWorker.Phase (s : FifoWorker N) : Prop
  | idle (takes : s.takes = 0) (batch : s.batch = []) (pc : s.pc = none) (log : s.log = [])
  | copying (takes : s.takes = 1) (pc : s.pc = some s.log.length)
      (lt : s.log.length < s.batch.length)
  | copied (takes : s.takes = 1) (pc : s.pc = none) (log : s.log.length = s.batch.length)
      (batch : s.batch ≠ [])
  | again (takes : 2 ≤ s.takes) (pc : s.pc = some 0) (log : s.log ≠ []) (batch : s.batch ≠ [])

/-- What the worker keeps as long as every step goes well. -/
structure FifoWorker.Inv (s : FifoWorker N) : Prop where
  queued : (s.batch ++ s.fifo).map FifoEntry.serial = List.range s.appended
  order : s.log.map Copied.serial = List.range s.log.length
  position : ∀ k c, s.log[k]? = some c → c.pos = fowardCurrentNode^[k] circleqFirst
  cursor : s.cursor = fowardCurrentNode^[s.log.length] circleqFirst
  stored : ∀ c, s.log.getLast? = some c → ∃ i, c.pos = .entry i ∧ s.ring i = c.node
  taken : s.stalled = false
  phase : s.Phase

namespace FifoWorker.Inv

variable {s t : FifoWorker N}

theorem init (mtu : MtuProfile) (mem : Mem) : (fifoWorker mtu N mem).Inv where
  queued := rfl
  order := rfl
  position k c h := absurd h (by simp [fifoWorker])
  cursor := rfl
  stored c h := absurd h (by simp [fifoWorker])
  taken := rfl
  phase := .idle rfl rfl rfl rfl

/-- Every append is in the batch or still in the fifo. -/
theorem appended_eq (h : s.Inv) : s.batch.length + s.fifo.length = s.appended := by
  have hlen := congrArg List.length h.queued
  simpa using hlen

theorem faithful (h : s.Inv) : s.Faithful := by
  refine ⟨h.order, h.position, h.stored, fun hpc ↦ ?_, h.taken⟩
  have happ := h.appended_eq
  cases h.phase with
  | idle _ batch _ log => simpa [batch, log] using happ
  | copying _ pc _ => exact absurd (hpc.symm.trans pc) (by simp)
  | copied _ _ log _ => rw [log]; exact happ
  | again _ pc _ _ => exact absurd (hpc.symm.trans pc) (by simp)

/-- The `i`-th entry of the batch is that of the `i`-th append. -/
theorem serial_eq (h : s.Inv) {i : ℕ} {e : FifoEntry} (he : s.batch[i]? = some e) :
    e.serial = i := by
  obtain ⟨hlt, rfl⟩ := List.getElem?_eq_some_iff.1 he
  have hget : ((s.batch ++ s.fifo).map FifoEntry.serial)[i]? = some s.batch[i].serial := by
    rw [List.getElem?_map, List.getElem?_append_left hlt, he]; rfl
  rw [h.queued, List.getElem?_range (by have := h.appended_eq; omega)] at hget
  exact (Option.some.inj hget).symm

theorem store_step (h : s.Inv) (mem : Mem) : ({ s with mem := mem } : FifoWorker N).Inv :=
  ⟨h.queued, h.order, h.position, h.cursor, h.stored, h.taken, by
    cases h.phase with
    | idle takes batch pc log => exact .idle takes batch pc log
    | copying takes pc lt => exact .copying takes pc lt
    | copied takes pc log batch => exact .copied takes pc log batch
    | again takes pc log batch => exact .again takes pc log batch⟩

theorem append_step (h : s.Inv) (addr : ℕ) :
    ({ s with fifo := s.fifo ++ [⟨addr, s.appended⟩], appended := s.appended + 1 } :
      FifoWorker N).Inv :=
  ⟨by rw [← List.append_assoc, List.map_append, h.queued, List.range_succ]; rfl,
    h.order, h.position, h.cursor, h.stored, h.taken, by
    cases h.phase with
    | idle takes batch pc log => exact .idle takes batch pc log
    | copying takes pc lt => exact .copying takes pc lt
    | copied takes pc log batch => exact .copied takes pc log batch
    | again takes pc log batch => exact .again takes pc log batch⟩

/-- Taking a batch into an array with room for it. -/
theorem take_step (mtu : MtuProfile) (h : s.Inv) (hroom : s.batch.length < maxBatch)
    (hs : fifoStep mtu s .take = some t) : t.Inv := by
  rw [fifoStep] at hs
  split at hs
  · next hready =>
    obtain ⟨hpc, hfifo⟩ := hready
    obtain ⟨es, hbatch, hrest, hempty⟩ := takeBatch_spec s.fifo s.batch
    obtain rfl := Option.some.inj hs
    have hes : es ≠ [] := fun hnil ↦ by
      rcases hempty.1 hnil with hnil | hfull
      · exact hfifo hnil
      · omega
    have hne : (takeBatch s.batch s.fifo).1 ≠ [] := by rw [hbatch]; simp [hes]
    have htook : ((takeBatch s.batch s.fifo).2.length == s.fifo.length) = false := by
      have hlen := congrArg List.length hrest
      have hpos := List.length_pos_iff.2 hes
      rw [List.length_append] at hlen
      simp only [beq_eq_false_iff_ne]
      omega
    refine ⟨?_, h.order, h.position, h.cursor, h.stored, ?_, ?_⟩
    · show (((takeBatch s.batch s.fifo).1 ++ (takeBatch s.batch s.fifo).2).map _) = _
      rw [hbatch, List.append_assoc, ← hrest, h.queued]
    · show (s.stalled || (takeBatch s.batch s.fifo).2.length == s.fifo.length) = false
      rw [h.taken, htook]; rfl
    · cases h.phase with
      | idle takes batch pc log =>
        refine .copying (by simp [takes]) (by simp [hne, log]) ?_
        simpa [log] using List.length_pos_iff.2 hne
      | copying _ pc _ => exact absurd (hpc.symm.trans pc) (by simp)
      | copied takes pc log batch =>
        refine .again (by simp [takes]) (by simp [hne]) (fun hnil ↦ ?_) hne
        exact batch (List.length_eq_zero_iff.1 (by rw [← log, hnil]; rfl))
      | again _ pc _ _ => exact absurd (hpc.symm.trans pc) (by simp)
  · exact absurd hs (by simp)

/-- With a full array nothing is taken. -/
theorem take_bad (hfull : maxBatch ≤ s.batch.length) (hs : fifoStep mtu s .take = some t) :
    t.stalled = true := by
  rw [fifoStep] at hs
  split at hs
  · obtain ⟨es, -, hrest, hempty⟩ := takeBatch_spec s.fifo s.batch
    obtain rfl := Option.some.inj hs
    have hes : es = [] := hempty.2 (.inr hfull)
    rw [hes, List.nil_append] at hrest
    show (s.stalled || (takeBatch s.batch s.fifo).2.length == s.fifo.length) = true
    rw [← hrest]
    simp
  · exact absurd hs (by simp)

/-- Everything a copy does. -/
theorem copy_cases (hs : fifoStep mtu s .copy = some t) : ∃ i e, s.pc = some i ∧
    s.batch[i]? = some e ∧ t = { s.copyEntry mtu e with
      pc := if i + 1 < s.batch.length then some (i + 1) else none } := by
  rw [fifoStep] at hs
  split at hs
  · exact absurd hs (by simp)
  · next i hi =>
    split at hs
    · exact absurd hs (by simp)
    · next e he => exact ⟨i, e, hi, he, (Option.some.inj hs).symm⟩

/-- A copy for the first batch, from an entry that looks like its node. -/
theorem copy_step (h : s.Inv) (hok : s.StepOk mtu .copy) (hs : fifoStep mtu s .copy = some t) :
    t.Inv := by
  obtain ⟨i, e, hpc, he, rfl⟩ := copy_cases hs
  obtain ⟨htakes, hhead, hsame⟩ := hok
  obtain ⟨hi, hlt⟩ : i = s.log.length ∧ s.log.length < s.batch.length := by
    cases h.phase with
    | idle takes _ _ _ => exact absurd (htakes.symm.trans takes) (by simp)
    | copying _ pc lt => exact ⟨Option.some.inj (hpc.symm.trans pc), lt⟩
    | copied _ pc _ _ => exact absurd (hpc.symm.trans pc) (by simp)
    | again takes _ _ _ => omega
  subst hi
  have hserial : e.serial = s.log.length := h.serial_eq he
  refine ⟨h.queued, ?_, fun k c hk ↦ ?_, ?_, fun c hc ↦ ?_, h.taken, ?_⟩
  · show (s.log ++ [_]).map Copied.serial = List.range (s.log ++ [_]).length
    rw [List.map_append, h.order, List.length_append, List.length_singleton, List.range_succ,
      List.map_singleton, hserial]
  · rcases Nat.lt_trichotomy k s.log.length with hk' | rfl | hk'
    · exact h.position k c (by rwa [copyEntry, List.getElem?_append_left hk'] at hk)
    · rw [copyEntry, List.getElem?_append_right (by rfl), Nat.sub_self] at hk
      obtain rfl := Option.some.inj hk
      exact h.cursor
    · rw [copyEntry, List.getElem?_eq_none (by simp; omega)] at hk
      exact absurd hk (by simp)
  · show fowardCurrentNode s.cursor = fowardCurrentNode^[(s.log ++ [_]).length] circleqFirst
    rw [List.length_append, List.length_singleton, Function.iterate_succ_apply', ← h.cursor]
  · obtain ⟨j, hj⟩ : ∃ j, s.cursor = .entry j := by
      cases hcur : s.cursor with
      | entry j => exact ⟨j, rfl⟩
      | head => exact absurd hcur hhead
    rw [copyEntry, List.getLast?_concat] at hc
    obtain rfl := Option.some.inj hc
    refine ⟨j, hj, ?_⟩
    simp only [copyEntry, hj, Function.update_self]
    exact hsame _ e hpc he
  · by_cases hmore : s.log.length + 1 < s.batch.length
    · exact .copying htakes (by simp [copyEntry, hmore]) (by simpa [copyEntry] using hmore)
    · refine .copied htakes (by simp [hmore]) ?_ (fun hnil ↦ ?_)
      · show (s.log ++ [_]).length = s.batch.length
        rw [List.length_append, List.length_singleton]; omega
      · have hzero : s.batch.length = 0 := List.length_eq_zero_iff.2 hnil
        omega

/-- Any other copy is a wrong one: it repeats the first append, it lands on the queue head, or it
stores something else. -/
theorem copy_bad (h : s.Inv) (hbad : ¬ s.StepOk mtu .copy) (hs : fifoStep mtu s .copy = some t) :
    ¬ t.Faithful := by
  intro hf
  obtain ⟨i, e, hpc, he, rfl⟩ := copy_cases hs
  obtain ⟨j, hpos, hring⟩ := hf.stored _ (List.getLast?_concat ..)
  refine hbad ⟨?_, fun hhead ↦ ?_, fun i' e' hi' he' ↦ ?_⟩
  · cases h.phase with
    | idle _ _ pc _ => exact absurd (hpc.symm.trans pc) (by simp)
    | copying takes _ _ => exact takes
    | copied _ pc _ _ => exact absurd (hpc.symm.trans pc) (by simp)
    | again _ pc log _ =>
      -- the copy that is due is that of append 0, and there have been copies before
      obtain rfl : i = 0 := Option.some.inj (hpc.symm.trans pc)
      have hlast := congrArg List.getLast? hf.order
      simp only [copyEntry, List.map_append, List.map_singleton, List.length_append,
        List.length_singleton, List.range_succ, List.getLast?_concat, h.serial_eq he] at hlast
      exact absurd (List.length_eq_zero_iff.1 (Option.some.inj hlast).symm) log
  · exact absurd (hhead.symm.trans hpos) (by simp)
  · obtain rfl : i = i' := Option.some.inj (hpc.symm.trans hi')
    obtain rfl : e = e' := Option.some.inj (he.symm.trans he')
    have hcur : s.cursor = .entry j := hpos
    simpa [Coincides, copyEntry, hcur] using hring

theorem step (h : s.Inv) (e : FifoEvent) (hok : s.StepOk mtu e) (hs : fifoStep mtu s e = some t) :
    t.Inv := by
  cases e with
  | store mem => obtain rfl := Option.some.inj hs; exact h.store_step mem
  | append addr => obtain rfl := Option.some.inj hs; exact h.append_step addr
  | take => exact h.take_step mtu hok hs
  | copy => exact h.copy_step hok hs

theorem step_bad (h : s.Inv) (e : FifoEvent) (hbad : ¬ s.StepOk mtu e)
    (hs : fifoStep mtu s e = some t) : ¬ t.Faithful := by
  cases e with
  | store mem => exact absurd trivial hbad
  | append addr => exact absurd trivial hbad
  | take =>
    intro hf
    have hstalled := take_bad (Nat.le_of_not_lt hbad) hs
    exact absurd (hstalled.symm.trans hf.taken) (by simp)
  | copy => exact h.copy_bad hbad hs

end FifoWorker.Inv

/-- **The fifo worker does its job exactly on its first batch.**  For every ring, every memory and
every interleaving of appends, batches and copies, the worker is faithful throughout the run if and
only if every batch was taken with fewer than `MAX_BATCH` entries taken before, and every copy was
made for the first batch, at an entry of the ring, and from a fifo entry whose own bytes are those
of the node it points to. -/
theorem fifoWorker_faithful_iff (mtu : MtuProfile) (N : ℕ) [NeZero N] (mem : Mem)
    (es : List FifoEvent) :
    Always (fifoStep mtu) FifoWorker.Faithful (fifoWorker mtu N mem) es ↔
      Guarded (fifoStep mtu) (FifoWorker.StepOk mtu) (fifoWorker mtu N mem) es :=
  always_iff_guarded FifoWorker.Inv (fun _ h ↦ h.faithful) (fun _ e _ h hok ↦ h.step e hok)
    (fun _ e _ h hbad ↦ h.step_bad e hbad) es (.init mtu mem)

/-- In zero memory an entry looks like its node, and its copy is what it should be. -/
theorem fifoWorker_faithful_zero :
    Always (fifoStep .mtu1500) FifoWorker.Faithful (fifoWorker .mtu1500 4 fun _ ↦ 0)
      [.append 0x1000, .take, .copy] := by
  have hzero : ∀ e, Coincides .mtu1500 (fun _ ↦ 0) e := fun e ↦ by
    rw [Coincides, readBytes, readBytes]
  refine (fifoWorker_faithful_iff .mtu1500 4 (fun _ ↦ 0) _).2 ?_
  rw [guarded_cons_some rfl, guarded_cons_some rfl, guarded_cons_some rfl]
  have hcursor : (circleqFirst : Elm 4) ≠ .head := by decide
  exact ⟨trivial, (by decide : 0 < maxBatch), ⟨rfl, hcursor, fun _ e _ _ ↦ hzero e⟩, trivial⟩

/-- One entry is enough, unless it looks like its node. -/
theorem not_always_of_not_coincides {mem : Mem} {addr : ℕ} (h : ¬ Coincides mtu mem ⟨addr, 0⟩) :
    ¬ Always (fifoStep mtu) FifoWorker.Faithful (fifoWorker mtu N mem)
      [.append addr, .take, .copy] := by
  intro hA
  have hA' := ((always_cons_some rfl).1 ((always_cons_some rfl).1 hA).2).2
  have hinv := (FifoWorker.Inv.init mtu mem : (fifoWorker mtu N mem).Inv).append_step addr
  have hroom : (fifoWorker mtu N mem).batch.length < maxBatch := by simp [fifoWorker, maxBatch]
  refine (hinv.take_step mtu hroom rfl).copy_bad (fun hok ↦ h ?_) rfl
    ((always_cons_some rfl).1 hA').2
  exact hok.2.2 0 ⟨addr, 0⟩ rfl rfl

/-- The entry at `0x1000` points to the node at `0x2000`, whose bytes are zero.  What is copied into
the ring is the pointer. -/
theorem fifoWorker_not_faithful :
    ¬ Always (fifoStep .mtu1500) FifoWorker.Faithful
      (fifoWorker .mtu1500 4 fun addr ↦ if addr = 0x1001 then 0x20 else 0)
      [.append 0x1000, .take, .copy] := by
  refine not_always_of_not_coincides fun hsame ↦ ?_
  have hptr : readPtr (fun addr ↦ if addr = 0x1001 then 0x20 else 0) 0x1000 = 0x2000 := by decide
  have hlt : 1 < sizeofNode .mtu1500 := by decide
  have hbyte := congrArg (fun bytes ↦ bytes[1]?) hsame
  rw [hptr] at hbyte
  simp [readBytes, List.getElem?_range hlt] at hbyte

end DmmrOrbit
