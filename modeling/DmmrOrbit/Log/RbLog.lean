import DmmrOrbit.CString
import DmmrOrbit.Lib.OverwritingRing

/-!
# The log buffer

`rb_log.c`: 256 lines of 512 bytes between two indices that wrap.  `rb_log_push` formats a line into
the slot at `write_pos` and moves the index on; it never looks at `read_pos`.  The drain loop, of
which the log thread and `rb_log_flush` have one each, reads up to 16 slots at a time until
`read_pos` is level with `write_pos`.  The mutex and the condition variable are left out here: a
push and a drain are each taken as a whole.

`logReads` is what the drains of a list of operations read, `bursts` what was pushed before each of
them.  `logReads_eq` says how the two are related: the indices tell how many messages of a burst are
left over when the ring has been filled as often as possible, and so many of the last ones are read.
`logReads_law_iff` is what remains of the law of the ring: a drain reads the last
`RB_LOG_BUFFER_SIZE - 1` messages of its burst, or all of them, exactly when the burst has at most
255 messages or is 255 messages longer than a multiple of 256.
-/

set_option autoImplicit false

open Cyclic

namespace DmmrOrbit

/-! ## Lines -/

/-- The arguments of `rb_log_push` that the line is made of. -/
structure LogCall where
  msg : List UInt8
  func : List UInt8
  line : ℤ
  deriving DecidableEq, Repr

/-- `if (p < end) *p++ = c`, where `p` is as far into the slot as there are bytes written. -/
def putChar (p : List UInt8) (c : UInt8) : List UInt8 :=
  if p.length < 0x200 - 1 then p ++ [c] else p

/-- `while (*s && p < end) *p++ = *s++`. -/
def putString (p : List UInt8) : List UInt8 → List UInt8
  | [] => p
  | c :: s => if c ≠ 0 ∧ p.length < 0x200 - 1 then putString (p ++ [c]) s else p

/-- The loop that writes the digits of `abs_line` in front of `num_ptr`.  An `int` has at most ten.
-/
def putDigits : ℕ → ℕ → List UInt8 → List UInt8
  | 0, _, num => num
  | k + 1, absLine, num =>
    let num := UInt8.ofNat (0x30 + absLine % 10) :: num
    if 0 < absLine / 10 then putDigits k (absLine / 10) num else num

/-- The number of the line, as it stands in `num`. -/
def lineNumber (line : ℤ) : List UInt8 :=
  let num := putDigits 10 line.natAbs []
  if line < 0 then 0x2d :: num else num

/-- The text that `rb_log_push` leaves in the slot: `func (line) msg`, cut off at 511 bytes. -/
def LogCall.text (c : LogCall) : List UInt8 :=
  let p := putString [] c.func
  let p := putChar p 0x20
  let p := putChar p 0x28
  let p := putString p (lineNumber c.line)
  let p := putChar p 0x29
  let p := putChar p 0x20
  putString p c.msg

/-- A text that fits a slot, with its NUL. -/
def IsLine (p : List UInt8) : Prop := p.length < 0x200 ∧ ∀ b ∈ p, b ≠ 0

theorem IsLine.putChar {p : List UInt8} (h : IsLine p) {c : UInt8} (hc : c ≠ 0) :
    IsLine (putChar p c) := by
  rw [DmmrOrbit.putChar]
  split
  · refine ⟨by rw [List.length_append, List.length_singleton]; omega, fun b hb ↦ ?_⟩
    rcases List.mem_append.1 hb with hb | hb
    · exact h.2 b hb
    · rw [List.mem_singleton.1 hb]; exact hc
  · exact h

theorem IsLine.putString {p : List UInt8} (h : IsLine p) (s : List UInt8) :
    IsLine (putString p s) := by
  induction s generalizing p with
  | nil => exact h
  | cons c s ih =>
    rw [DmmrOrbit.putString]
    split
    · next hc =>
      have hput := h.putChar hc.1
      rw [DmmrOrbit.putChar, if_pos hc.2] at hput
      exact ih hput
    · exact h

theorem LogCall.isLine_text (c : LogCall) : IsLine c.text := by
  have hnil : IsLine [] := ⟨by decide, by simp⟩
  exact (((((hnil.putString c.func).putChar (by decide)).putChar (by decide)).putString
    (lineNumber c.line)).putChar (by decide)).putChar (by decide) |>.putString c.msg

/-- `f (-12) a`. -/
example : (⟨[0x61], [0x66], -12⟩ : LogCall).text =
    [0x66, 0x20, 0x28, 0x2d, 0x31, 0x32, 0x29, 0x20, 0x61] := by
  decide

/-! ## The buffer -/

/-- `struct rb_log_buffer`, without its lock.  The two indices are only ever reduced modulo
`RB_LOG_BUFFER_SIZE`. -/
structure RbLogBuffer where
  queue : Fin 256 → Bytes 0x200
  writePos : Fin 256
  readPos : Fin 256

namespace RbLogBuffer

/-- The buffer in zeroed memory. -/
def zero : RbLogBuffer := ⟨fun _ ↦ .zero 0x200, 0, 0⟩

/-- What a reader of a slot finds. -/
def line (b : RbLogBuffer) (i : Fin 256) : List UInt8 := cstr (b.queue i).toList

/-- The body of `rb_log_push`. -/
def push (b : RbLogBuffer) (c : LogCall) : RbLogBuffer :=
  { b with
    queue := Function.update b.queue b.writePos ((b.queue b.writePos).write (c.text ++ [0]))
    writePos := b.writePos + 1 }

/-- The inner loop of a drain: at most as many slots as there is room for in the vector. -/
def fillBatch : ℕ → RbLogBuffer → List (List UInt8) × RbLogBuffer
  | 0, b => ([], b)
  | k + 1, b =>
    if b.readPos = b.writePos then ([], b)
    else
      let (iov, b') := fillBatch k { b with readPos := b.readPos + 1 }
      (b.line b.readPos :: iov, b')

/-- The outer loop of a drain: the vectors it fills, one after the other. -/
def drainFrom : ℕ → RbLogBuffer → List (List (List UInt8)) × RbLogBuffer
  | 0, b => ([], b)
  | k + 1, b =>
    if b.readPos = b.writePos then ([], b)
    else
      let (iov, b') := fillBatch 16 b
      let (iovs, b'') := drainFrom k b'
      (iov :: iovs, b'')

/-- The drain loop of `rb_log_thread_func` and of `rb_log_flush`.  It ends after at most 16 rounds,
see `drain_eq`. -/
def drain (b : RbLogBuffer) : List (List (List UInt8)) × RbLogBuffer := drainFrom 16 b

end RbLogBuffer

/-- `rb_log_enabled`. -/
def rbLogEnabled (m : UInt8) (l : UInt32) : Bool := m.toUInt32 &&& l ≠ 0

/-- The test of `rb_log_push`, with the `log_level` of the configuration if there is one. -/
def rbLogAccepts (logLevel : Option UInt8) (level : UInt32) : Bool :=
  logLevel.all fun m ↦ rbLogEnabled m level

/-- `rb_log_push`. -/
def rbLogPush (logLevel : Option UInt8) (b : RbLogBuffer) (level : UInt32) (c : LogCall) :
    RbLogBuffer :=
  if rbLogAccepts logLevel level then b.push c else b

namespace RbLogBuffer

variable (b : RbLogBuffer)

theorem line_push (c : LogCall) : (b.push c).line = Function.update b.line b.writePos c.text := by
  funext i
  by_cases h : i = b.writePos
  · subst h
    rw [Function.update_self, line, push]
    dsimp only
    rw [Function.update_self, Bytes.cstr_write _ c.isLine_text.2 c.isLine_text.1]
  · rw [Function.update_of_ne h, line, push]
    dsimp only
    rw [Function.update_of_ne h, line]

/-- The reader moves on by `m` slots. -/
def skip (m : ℕ) : RbLogBuffer := { b with readPos := shift b.readPos m }

@[simp] theorem line_skip (m : ℕ) : (b.skip m).line = b.line := rfl

@[simp] theorem readPos_skip (m : ℕ) : (b.skip m).readPos = shift b.readPos m := rfl

@[simp] theorem writePos_skip (m : ℕ) : (b.skip m).writePos = b.writePos := rfl

theorem skip_zero : b.skip 0 = b := by rw [skip, shift_zero]

theorem skip_skip (m k : ℕ) : (b.skip m).skip k = b.skip (m + k) := by
  rw [skip, readPos_skip, shift_shift]; rfl

variable {b}

/-- The reader is level with the writer only when there is nothing to read. -/
theorem readPos_eq_writePos_iff {d : ℕ} (hd : d < 256) (hw : b.writePos = shift b.readPos d) :
    b.readPos = b.writePos ↔ d = 0 := by
  have h := shift_inj (b := b.readPos) (j := 0) (k := d) (by omega) (by omega)
  rw [shift_zero, ← hw] at h
  exact h.trans eq_comm

/-- What the inner loop does: it stops after `k` slots or level with the writer. -/
theorem fillBatch_eq (k : ℕ) {d : ℕ} (hd : d < 256) (hw : b.writePos = shift b.readPos d) :
    fillBatch k b = ((window b.readPos (min k d)).map b.line, b.skip (min k d)) := by
  induction k generalizing b d with
  | zero => rw [fillBatch, Nat.zero_min, skip_zero]; rfl
  | succ k ih =>
    have hlevel := readPos_eq_writePos_iff hd hw
    rw [fillBatch]
    cases d with
    | zero => rw [if_pos (hlevel.2 rfl), Nat.min_zero, skip_zero]; rfl
    | succ d =>
      have hone : ({ b with readPos := b.readPos + 1 } : RbLogBuffer) = b.skip 1 := by
        rw [skip, shift_one]
      have hw' : (b.skip 1).writePos = shift (b.skip 1).readPos d := by
        rw [writePos_skip, readPos_skip, shift_shift, Nat.add_comm, hw]
      rw [if_neg (mt hlevel.1 (Nat.succ_ne_zero d)), hone, ih (by omega) hw', skip_skip,
        Nat.succ_min_succ, window_cons, Nat.add_comm 1, readPos_skip, shift_one]
      rfl

/-- What the outer loop does: it reads everything up to the writer. -/
theorem drainFrom_eq (k : ℕ) {d : ℕ} (hk : d ≤ 16 * k) (hd : d < 256)
    (hw : b.writePos = shift b.readPos d) :
    (drainFrom k b).1.flatten = (window b.readPos d).map b.line ∧ (drainFrom k b).2 = b.skip d := by
  induction k generalizing b d with
  | zero =>
    obtain rfl : d = 0 := by omega
    rw [drainFrom, skip_zero]
    exact ⟨rfl, rfl⟩
  | succ k ih =>
    have hlevel := readPos_eq_writePos_iff hd hw
    rw [drainFrom]
    by_cases h0 : d = 0
    · subst h0
      rw [if_pos (hlevel.2 rfl), skip_zero]
      exact ⟨rfl, rfl⟩
    · have hsum : min 16 d + (d - min 16 d) = d := by omega
      have hw' : (b.skip (min 16 d)).writePos =
          shift (b.skip (min 16 d)).readPos (d - min 16 d) := by
        rw [writePos_skip, readPos_skip, shift_shift, hsum, hw]
      obtain ⟨hread, hend⟩ := ih (b := b.skip (min 16 d)) (by omega) (by omega) hw'
      rw [if_neg (mt hlevel.1 h0), fillBatch_eq 16 hd hw]
      refine ⟨?_, ?_⟩
      · dsimp only
        rw [List.flatten_cons, hread, line_skip, readPos_skip, ← List.map_append, ← window_add,
          hsum]
      · dsimp only
        rw [hend, skip_skip, hsum]

/-- **A drain** reads what is between the two indices, and leaves them level. -/
theorem drain_eq {d : ℕ} (hd : d < 256) (hw : b.writePos = shift b.readPos d) :
    b.drain.1.flatten = (window b.readPos d).map b.line ∧ b.drain.2 = b.skip d :=
  drainFrom_eq 16 (by omega) hd hw

end RbLogBuffer

/-! ## Bursts -/

/-- An operation on the buffer.  A push sees the configuration there is at the time. -/
inductive LogOp
  | push (logLevel : Option UInt8) (level : UInt32) (call : LogCall)
  | drain

/-- What the drains of a list of operations read. -/
def logReads : RbLogBuffer → List LogOp → List (List (List UInt8))
  | _, [] => []
  | b, .push logLevel level call :: ops => logReads (rbLogPush logLevel b level call) ops
  | b, .drain :: ops => b.drain.1.flatten :: logReads b.drain.2 ops

/-- What was accepted before each drain, since the previous one.  The first argument is what has
been accepted since then already. -/
def bursts : List (List UInt8) → List LogOp → List (List (List UInt8))
  | _, [] => []
  | l, .push logLevel level call :: ops =>
    bursts (if rbLogAccepts logLevel level then l ++ [call.text] else l) ops
  | l, .drain :: ops => l :: bursts [] ops

/-- The messages of a burst have been written from `read_pos` on. -/
structure RbLogBuffer.Holds (b : RbLogBuffer) (l : List (List UInt8)) : Prop where
  recorded : Recorded b.line b.readPos l
  writePos_eq : b.writePos = shift b.readPos l.length

namespace RbLogBuffer

variable {b : RbLogBuffer} {l : List (List UInt8)}

theorem holds_nil (h : b.writePos = b.readPos) : b.Holds [] :=
  ⟨.nil _ _, by rw [List.length_nil, shift_zero, h]⟩

theorem Holds.push (h : b.Holds l) (c : LogCall) : (b.push c).Holds (l ++ [c.text]) where
  recorded := by
    rw [line_push, h.writePos_eq]
    exact h.recorded.write c.text
  writePos_eq := by
    rw [List.length_append, List.length_singleton, shift_succ]
    show b.writePos + 1 = _
    rw [h.writePos_eq]; rfl

/-- What a drain reads of a burst. -/
theorem Holds.drain (h : b.Holds l) :
    b.drain.1.flatten = l.drop (256 * (l.length / 256)) ∧ b.drain.2.Holds [] := by
  have hw : b.writePos = shift b.readPos (l.length % 256) := by
    rw [shift_mod, h.writePos_eq]
  obtain ⟨hread, hend⟩ := drain_eq (Nat.mod_lt _ (by decide)) hw
  refine ⟨hread.trans h.recorded.map_window_mod, holds_nil ?_⟩
  rw [hend, writePos_skip, readPos_skip, hw]

end RbLogBuffer

/-- **What the drains read**: of every burst, as many of its last messages as are left over when the
ring has been filled as often as possible. -/
theorem logReads_eq {b : RbLogBuffer} {l : List (List UInt8)} (h : b.Holds l)
    (ops : List LogOp) :
    logReads b ops = (bursts l ops).map fun l ↦ l.drop (256 * (l.length / 256)) := by
  induction ops generalizing b l with
  | nil => rfl
  | cons op ops ih =>
    cases op with
    | push logLevel level call =>
      rw [logReads, bursts, rbLogPush]
      split
      · exact ih (h.push call)
      · exact ih h
    | drain =>
      rw [logReads, bursts, List.map_cons, h.drain.1, ih h.drain.2]

/-- The last `RB_LOG_BUFFER_SIZE - 1` messages of a burst, or all of them if there are fewer. -/
def lastMessages (l : List (List UInt8)) : List (List UInt8) := l.drop (l.length - min l.length 255)

theorem drop_eq_lastMessages_iff (l : List (List UInt8)) :
    l.drop (256 * (l.length / 256)) = lastMessages l ↔
      l.length ≤ 255 ∨ l.length % 256 = 255 := by
  have hdiv := Nat.div_add_mod l.length 256
  have hmod := Nat.mod_lt l.length (show 0 < 256 by decide)
  rw [lastMessages]
  constructor
  · intro h
    have hlen := congrArg List.length h
    rw [List.length_drop, List.length_drop] at hlen
    omega
  · intro h
    congr 1
    omega

/-- **The law of the ring** holds of a list of operations — every drain reads the last
`RB_LOG_BUFFER_SIZE - 1` messages of its burst, or all of them — exactly when no burst has more than
255 messages, unless it has 255 more than a multiple of 256. -/
theorem logReads_law_iff (ops : List LogOp) :
    logReads .zero ops = (bursts [] ops).map lastMessages ↔
      ∀ l ∈ bursts [] ops, l.length ≤ 255 ∨ l.length % 256 = 255 := by
  rw [logReads_eq (RbLogBuffer.holds_nil rfl), List.map_inj_left]
  simp only [drop_eq_lastMessages_iff]

/-- A burst as long as the ring. -/
def fullTurn : List LogOp := List.replicate 256 (.push none 0x08 ⟨[0x61], [0x66], 1⟩) ++ [.drain]

/-- After 256 messages the indices are level again, and a drain reads none of them. -/
theorem not_logReads_law :
    ¬ ∀ ops, logReads .zero ops = (bursts [] ops).map lastMessages := by
  intro h
  have hlen : (bursts [] fullTurn).map List.length = [256] := by decide +kernel
  obtain ⟨l, hl, h256⟩ := List.map_eq_singleton_iff.1 hlen
  have hlaw := h fullTurn
  rw [logReads_eq (RbLogBuffer.holds_nil rfl), hl, List.map_singleton, List.map_singleton,
    List.singleton_inj, drop_eq_lastMessages_iff, h256] at hlaw
  exact absurd hlaw (by decide)

end DmmrOrbit
