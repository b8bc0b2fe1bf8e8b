import Mathlib.Data.Fintype.Option
import DmmrOrbit.Lib.Routing
import DmmrOrbit.Lib.Transition
import DmmrOrbit.Log.RbLog

/-!
# The log thread, and what becomes of a message

`rb_log_init` clears the buffer and starts the log thread, which connects to `/dev/log` and then
hands the messages on; `rb_log_shutdown` tells it to end, and `rb_log_flush` drains the buffer from
any other thread.  `logStep` is a run of all of them, with any number of callers of `rb_log_flush`,
which takes no lock.  A drain, the one of the thread as well as that of a flush, therefore takes one
step for every statement (`drainStep`): it fills its vector entry by entry, first `iov_base`, then
`iov_len`, then `read_pos`, each of them read from the buffer as it then is.  `rb_log_push` takes
two, for the line and for `write_pos`.  What `socket` and `connect` return is part of the event.

Two histories go with the state: `accepted`, what `rb_log_push` has put into the buffer, and
`written`, what has been handed to `writev` on the connected descriptor or written to `stderr`.
`NothingLost` says that the accepted messages are, each once, those that have been written, those in
the vector of a drain and those still pending.

`logStep_nothingLost` is the result: over the runs in which the ring never fills up, no message is
lost as long as every step is safe (`LogEvent.Safe`).  The thread itself loses nothing, however
`socket` and `connect` turn out; but its fallback to `stderr` is out of reach, because it ends when
it cannot connect, and `rb_log_flush`, which is what then finds the messages, has no such fallback.
That the steps of `rb_log_init` and of `rb_log_flush` at a missing descriptor do lose something is
`Inv.lost_by_init` and `Inv.lost_by_flush`.  `not_nothingLost` is the start of the server: a message
that is pushed before `rb_log_init`.
-/

set_option autoImplicit false

open Cyclic Transition

namespace DmmrOrbit

/-! ## The state -/

/-- `syslog_fd`: closed (`EOF`), as `socket` returns it, or connected to `/dev/log`. -/
inductive SyslogFd
  | closed
  | opened
  | connected
  deriving DecidableEq, Repr

/-- Where the log thread is: not there, before `socket`, before `connect`, before it has the lock,
in the drain loop, and before the test of `run`. -/
inductive LogThreadPc
  | gone
  | created
  | socketed
  | waiting
  | draining
  | testing
  deriving DecidableEq, Repr

/-- Where a message goes. -/
inductive LogDevice
  | syslog
  | stderr
  deriving DecidableEq, Repr

/-- `struct iovec`, with the slot that `iov_base` points to. -/
structure IoVec where
  base : Fin 256
  len : ℕ
  deriving DecidableEq, Repr

/-- Where a drain is: outside, at the test of the outer `while` and of the inner one, before it sets
`iov_base`, `iov_len` and `read_pos`, at the test of `syslog_fd`, before `writev`, and in the loop
that writes to `stderr`. -/
inductive DrainPc
  | idle
  | outer
  | inner
  | base
  | len (slot : Fin 256)
  | next (entry : IoVec)
  | send
  | writev
  | fputs
  deriving DecidableEq, Repr

/-- A drain, with the entries of its vector up to `batch_count`. -/
structure Drain where
  pc : DrainPc
  iov : List IoVec
  deriving DecidableEq, Repr

/-- `rb_log_push` up to the terminating NUL; what is left of it moves `write_pos`. -/
def RbLogBuffer.writeLine (b : RbLogBuffer) (c : LogCall) : RbLogBuffer :=
  { b with
    queue := Function.update b.queue b.writePos ((b.queue b.writePos).write (c.text ++ [0])) }

/-- The messages between the two indices. -/
def RbLogBuffer.pending (b : RbLogBuffer) : List (List UInt8) :=
  (window b.readPos (b.writePos - b.readPos : Fin 256)).map b.line

/-- What an entry of a vector stands for. -/
def IoVec.text (v : IoVec) (b : RbLogBuffer) : List UInt8 := (b.queue v.base).toList.take v.len

/-- The messages in the vector of a drain. -/
def Drain.texts (d : Drain) (b : RbLogBuffer) : Multiset (List UInt8) := ↑(d.iov.map (·.text b))

/-- A drain that has read `queue[read_pos]` and not yet moved `read_pos` on. -/
def Drain.Taking (d : Drain) : Prop :=
  match d.pc with
  | .len _ | .next _ => True
  | _ => False

instance : DecidablePred Drain.Taking := fun d ↦
  match d with
  | ⟨.len _, _⟩ | ⟨.next _, _⟩ => .isTrue trivial
  | ⟨.idle, _⟩ | ⟨.outer, _⟩ | ⟨.inner, _⟩ | ⟨.base, _⟩ | ⟨.send, _⟩ | ⟨.writev, _⟩ | ⟨.fputs, _⟩ =>
    .isFalse id

/-- The log, with the callers `ι` of `rb_log_flush`. -/
structure LogSystem (ι : Type) where
  buffer : RbLogBuffer
  /-- `cfg` has been set. -/
  cfg : Bool
  run : Bool
  syslogFd : SyslogFd
  /-- `log_buf.lock` has not been destroyed. -/
  lock : Bool
  pc : LogThreadPc
  /-- The drain of the log thread, `none`, and those of `rb_log_flush`. -/
  drain : Option ι → Drain
  /-- The calls of `rb_log_push` that have written their line and not yet moved `write_pos`. -/
  pushing : List LogCall
  /-- `rb_log_shutdown` is at its `pthread_join`. -/
  joining : Bool
  accepted : List (List UInt8)
  written : List (LogDevice × List UInt8)

/-- The statics before the first call. -/
def LogSystem.start (ι : Type) : LogSystem ι where
  buffer := .zero
  cfg := false
  run := false
  syslogFd := .closed
  lock := true
  pc := .gone
  drain := fun _ ↦ ⟨.idle, []⟩
  pushing := []
  joining := false
  accepted := []
  written := []

/-! ## The steps -/

inductive LogEvent (ι : Type)
  /-- `rb_log_push` takes the lock and writes its line; the `log_level` is that of the configuration
  at the time. -/
  | push (logLevel : UInt8) (level : UInt32) (call : LogCall)
  /-- It moves `write_pos` and releases the lock. -/
  | pushed (call : LogCall)
  /-- `rb_log_init`; `pthread_create` may fail, which is not tested. -/
  | init (created : Bool)
  /-- `rb_log_shutdown` up to its `pthread_join`, and after it. -/
  | shutdown
  | destroy
  /-- The thread calls `socket`, then `connect`. -/
  | socket (ok : Bool)
  | connect (ok : Bool)
  /-- The thread has the lock and goes on to drain, is done. -/
  | lock
  | unlock
  /-- The thread tests `run` at the end of its loop. -/
  | test
  /-- `rb_log_flush` is called. -/
  | flush (i : ι)
  /-- One statement of a drain. -/
  | drain (c : Option ι)

/-- What `writev` makes of a vector: it needs a connected descriptor. -/
def writev (fd : SyslogFd) (b : RbLogBuffer) (iov : List IoVec) : List (LogDevice × List UInt8) :=
  match fd with
  | .connected => iov.map fun v ↦ (.syslog, v.text b)
  | .opened | .closed => []

namespace LogSystem

variable {ι : Type} [DecidableEq ι]

/-- A drain moves on. -/
def setDrain (s : LogSystem ι) (c : Option ι) (d : Drain) : LogSystem ι :=
  { s with drain := Function.update s.drain c d }

/-- One statement of a drain; only the thread has the fallback to `stderr`. -/
def drainStep (s : LogSystem ι) (c : Option ι) : Option (LogSystem ι) :=
  let b := s.buffer
  let iov := (s.drain c).iov
  match (s.drain c).pc with
  | .idle => none
  | .outer => some (s.setDrain c (if b.readPos ≠ b.writePos then ⟨.inner, []⟩ else ⟨.idle, []⟩))
  | .inner =>
    some (s.setDrain c ⟨if iov.length < 16 ∧ b.readPos ≠ b.writePos then .base else .send, iov⟩)
  | .base => some (s.setDrain c ⟨.len b.readPos, iov⟩)
  | .len slot => some (s.setDrain c ⟨.next ⟨slot, (b.line b.readPos).length⟩, iov⟩)
  | .next entry =>
    some { s.setDrain c ⟨.inner, iov ++ [entry]⟩ with
      buffer := { b with readPos := b.readPos + 1 } }
  | .send =>
    some (s.setDrain c (
      if s.syslogFd ≠ .closed ∧ iov ≠ [] then ⟨.writev, iov⟩
      else if c = none ∧ iov ≠ [] then ⟨.fputs, iov⟩
      else ⟨.outer, []⟩))
  | .writev =>
    some { s.setDrain c ⟨.outer, []⟩ with written := s.written ++ writev s.syslogFd b iov }
  | .fputs =>
    match iov with
    | [] => some (s.setDrain c ⟨.outer, []⟩)
    | v :: iov =>
      some { s.setDrain c ⟨.fputs, iov⟩ with written := s.written ++ [(.stderr, v.text b)] }

/-- What `rb_log_push` tests: the `log_level` of the configuration, once there is one. -/
def levelSeen (s : LogSystem ι) (logLevel : UInt8) : Option UInt8 :=
  if s.cfg then some logLevel else none

/-- `pthread_mutex_lock` returns: nobody has the lock, or it is there no more. -/
def Free (s : LogSystem ι) : Prop := s.lock = true → s.pc ≠ .draining ∧ s.pushing = []

instance (s : LogSystem ι) : Decidable s.Free := inferInstanceAs (Decidable (_ → _))

end LogSystem

/-- One step.  The runs considered are those in which fewer than `RB_LOG_BUFFER_SIZE` messages are
ever pending, and in which `rb_log_init` is only called when there is no log thread. -/
def logStep {ι : Type} [DecidableEq ι] (s : LogSystem ι) : LogEvent ι → Option (LogSystem ι)
  | .push logLevel level call =>
    if rbLogAccepts (s.levelSeen logLevel) level then
      if s.Free ∧ s.buffer.pending.length + s.pushing.length < 255 then
        some { s with buffer := s.buffer.writeLine call, pushing := s.pushing ++ [call] }
      else none
    else some s
  | .pushed call =>
    if call ∈ s.pushing then
      some { s with
        buffer := { s.buffer with writePos := s.buffer.writePos + 1 }
        pushing := s.pushing.erase call
        accepted := s.accepted ++ [call.text] }
    else none
  | .init created =>
    if s.pc = .gone then
      some { s with
        cfg := true, buffer := .zero, lock := true, run := true
        pc := if created then .created else .gone }
    else none
  | .shutdown => if s.Free then some { s with run := false, joining := true } else none
  | .destroy =>
    if s.joining ∧ s.pc = .gone then some { s with lock := false, joining := false } else none
  | .socket ok =>
    if s.pc = .created then
      some (if ok then { s with syslogFd := .opened, pc := .socketed }
        else { s with syslogFd := .closed, pc := .gone })
    else none
  | .connect ok =>
    if s.pc = .socketed then
      some (if ok then { s with syslogFd := .connected, pc := .waiting }
        else { s with syslogFd := .closed, pc := .gone })
    else none
  | .lock =>
    if s.pc = .waiting ∧ s.Free ∧ ¬ (s.buffer.readPos = s.buffer.writePos ∧ s.run = true) then
      some { s.setDrain none ⟨.outer, []⟩ with pc := .draining }
    else none
  | .unlock =>
    if s.pc = .draining ∧ (s.drain none).pc = .idle then some { s with pc := .testing } else none
  | .test =>
    if s.pc = .testing then
      some (if s.run then { s with pc := .waiting }
        else { s with syslogFd := .closed, pc := .gone })
    else none
  | .flush i =>
    if (s.drain (some i)).pc = .idle then some (s.setDrain (some i) ⟨.outer, []⟩) else none
  | .drain c => s.drainStep c

/-- The accepted messages have been written, are in the vector of a drain, or are pending, each of
them once. -/
def NothingLost {ι : Type} [Fintype ι] (s : LogSystem ι) : Prop :=
  (s.accepted : Multiset (List UInt8)) =
    ↑(s.written.map Prod.snd) + ∑ c, (s.drain c).texts s.buffer + ↑s.buffer.pending

instance {ι : Type} [Fintype ι] (s : LogSystem ι) : Decidable (NothingLost s) :=
  inferInstanceAs (Decidable (_ = _))

/-- **The steps that lose nothing.**

* `rb_log_push` finds no other call of it at work, and writes to no slot that a `rb_log_flush` has
  in its vector.
* `rb_log_init` finds an empty buffer, and nobody who is about to add to it or has taken from it.
* A drain reads `queue[read_pos]` where there is a message, and no other drain has read it and not
  yet moved `read_pos`.
* `rb_log_flush` finds a descriptor for what it has in its vector, and `writev` a connected one.
-/
def LogEvent.Safe {ι : Type} (s : LogSystem ι) : LogEvent ι → Prop
  | .push logLevel level _ => rbLogAccepts (s.levelSeen logLevel) level →
    s.pushing = [] ∧ ∀ i, ∀ v ∈ (s.drain (some i)).iov, v.base ≠ s.buffer.writePos
  | .init _ => s.buffer.readPos = s.buffer.writePos ∧ s.pushing = [] ∧
    ∀ i, (s.drain (some i)).iov = []
  | .drain c =>
    ((s.drain c).pc = .base →
      s.buffer.readPos ≠ s.buffer.writePos ∧ ∀ d, ¬ (s.drain d).Taking) ∧
    (c ≠ none → (s.drain c).iov ≠ [] →
      ((s.drain c).pc = .send → s.syslogFd ≠ .closed) ∧
      ((s.drain c).pc = .writev → s.syslogFd = .connected))
  | _ => True

instance {ι : Type} [Fintype ι] (s : LogSystem ι) (e : LogEvent ι) : Decidable (e.Safe s) :=
  match e with
  | .push _ _ _ => inferInstanceAs (Decidable (_ → _ ∧ _))
  | .init _ => inferInstanceAs (Decidable (_ ∧ _ ∧ _))
  | .drain c =>
    have : Decidable (c ≠ none) := decidable_of_iff (c.isSome = true) Option.isSome_iff_ne_none
    inferInstanceAs (Decidable (_ ∧ (_ → _)))
  | .pushed _ | .shutdown | .destroy | .socket _ | .connect _ | .lock | .unlock | .test
  | .flush _ => .isTrue trivial

/-! ## The pending messages -/

theorem IoVec.text_eq {v : IoVec} {b : RbLogBuffer} (h : v.len = (b.line v.base).length) :
    v.text b = b.line v.base := by
  rw [text, h]
  exact (List.prefix_iff_eq_take.1 (List.takeWhile_prefix _)).symm

namespace RbLogBuffer

variable {b : RbLogBuffer} {l : List (List UInt8)}

theorem push_eq (b : RbLogBuffer) (c : LogCall) :
    b.push c = { b.writeLine c with writePos := b.writePos + 1 } := rfl

theorem line_writeLine (b : RbLogBuffer) (c : LogCall) :
    (b.writeLine c).line = Function.update b.line b.writePos c.text := b.line_push c

theorem Holds.pending_eq (h : b.Holds l) (hl : l.length < 256) : b.pending = l := by
  have hd : ((b.writePos - b.readPos : Fin 256) : ℕ) = l.length := by
    have hr := b.readPos.isLt
    rw [h.writePos_eq, Fin.sub_def, val_shift]
    dsimp only
    omega
  rw [pending, hd, h.recorded.map_window le_rfl hl.le, List.take_length]

/-- The indices are level only when nothing is pending. -/
theorem Holds.level_iff (h : b.Holds l) (hl : l.length < 256) :
    b.readPos = b.writePos ↔ l = [] := by
  rw [readPos_eq_writePos_iff hl h.writePos_eq, List.length_eq_zero_iff]

theorem Holds.writeLine (h : b.Holds l) (hl : l.length < 256) (c : LogCall) :
    (b.writeLine c).Holds l where
  recorded := by
    rw [line_writeLine, h.writePos_eq]
    exact h.recorded.update_next hl c.text
  writePos_eq := h.writePos_eq

/-- The line behind the last one counts from now on. -/
theorem Holds.pushed (h : b.Holds l) {text : List UInt8} (ht : b.line b.writePos = text) :
    ({ b with writePos := b.writePos + 1 } : RbLogBuffer).Holds (l ++ [text]) where
  recorded := h.recorded.concat (by rw [← h.writePos_eq]; exact ht)
  writePos_eq := by
    rw [List.length_append, List.length_singleton, shift_succ, ← h.writePos_eq]

/-- The reader has gone past the first message. -/
theorem Holds.tail {text : List UInt8} (h : b.Holds (text :: l)) (hl : l.length < 256) :
    b.line b.readPos = text ∧ ({ b with readPos := b.readPos + 1 } : RbLogBuffer).Holds l := by
  refine ⟨?_, ?_, ?_⟩
  · have hfirst := h.recorded 0 (Nat.succ_pos _) (by rw [List.length_cons]; omega)
    rwa [shift_zero] at hfirst
  · have hdrop := h.recorded.drop 1
    rwa [shift_one] at hdrop
  · rw [shift_add_one]
    exact h.writePos_eq

end RbLogBuffer

/-! ## The invariant -/

/-- What the thread has made of the descriptor. -/
def LogThreadPc.fd : LogThreadPc → SyslogFd
  | gone | created => .closed
  | socketed => .opened
  | waiting | draining | testing => .connected

/-- What a drain has, where it is: what it has read of `queue[read_pos]` belongs to the first of the
messages `l`. -/
def Drain.Ok (d : Drain) (b : RbLogBuffer) (l : List (List UInt8)) : Prop :=
  match d.pc with
  | .idle | .outer => d.iov = []
  | .len slot => slot = b.readPos ∧ l ≠ []
  | .next v => v = ⟨b.readPos, (b.line b.readPos).length⟩ ∧ l ≠ []
  | .fputs => False
  | _ => True

/-- The messages `l` are pending, and what has been accepted before them has been written or is in
the vector of a drain.  At most one drain is about to move `read_pos`, at most one push is about to
move `write_pos`, and the descriptor is as the thread has left it. -/
structure LogSystem.Inv {ι : Type} [Fintype ι] (s : LogSystem ι) (l : List (List UInt8)) :
    Prop where
  holds : s.buffer.Holds l
  room : l.length + s.pushing.length < 256
  kept : (s.accepted : Multiset (List UInt8)) =
    ↑(s.written.map Prod.snd) + ∑ c, (s.drain c).texts s.buffer + ↑l
  fd : s.syslogFd = s.pc.fd
  lock : s.lock = false → s.pc = .gone
  excl : s.pc = .draining → s.pushing = []
  one : s.pushing.length ≤ 1
  line : ∀ call ∈ s.pushing, s.buffer.line s.buffer.writePos = call.text
  thread : s.pc ≠ .draining → (s.drain none).pc = .idle
  ok : ∀ c, (s.drain c).Ok s.buffer l
  entry : ∀ c, ∀ v ∈ (s.drain c).iov, v.len = (s.buffer.line v.base).length
  alone : ∀ c d, (s.drain c).Taking → (s.drain d).Taking → c = d

/-- A drain that is not about to move `read_pos` does not care what is pending. -/
theorem Drain.Ok.of_not_taking {d : Drain} {b b' : RbLogBuffer} {l l' : List (List UInt8)}
    (h : d.Ok b l) (hd : ¬ d.Taking) : d.Ok b' l' := by
  obtain ⟨pc, iov⟩ := d
  cases pc with
  | len slot => exact absurd trivial hd
  | next v => exact absurd trivial hd
  | _ => exact h

/-- One that is needs a message that stays where it is. -/
theorem Drain.Ok.of_taking {d : Drain} {b b' : RbLogBuffer} {l l' : List (List UInt8)}
    (h : d.Ok b l) (hr : b'.readPos = b.readPos)
    (hline : l ≠ [] → b'.line b.readPos = b.line b.readPos) (hl : l ≠ [] → l' ≠ []) :
    d.Ok b' l' := by
  obtain ⟨pc, iov⟩ := d
  cases pc with
  | len slot => exact ⟨h.1.trans hr.symm, hl h.2⟩
  | next v => exact ⟨by rw [hr, hline h.2]; exact h.1, hl h.2⟩
  | _ => exact h

/-- It is at work on a pending message. -/
theorem Drain.Ok.ne_nil {d : Drain} {b : RbLogBuffer} {l : List (List UInt8)} (h : d.Ok b l)
    (hd : d.Taking) : l ≠ [] := by
  obtain ⟨pc, iov⟩ := d
  cases pc with
  | len slot => exact h.2
  | next v => exact h.2
  | _ => exact absurd hd id

namespace LogSystem

variable {ι : Type} [Fintype ι]

theorem inv_start : (start ι).Inv [] where
  holds := RbLogBuffer.holds_nil rfl
  room := Nat.zero_lt_succ _
  kept := by simp [start, Drain.texts]
  fd := rfl
  lock := fun h ↦ absurd h Bool.noConfusion
  excl := fun _ ↦ rfl
  one := Nat.zero_le _
  line := by simp [start]
  thread := fun _ ↦ rfl
  ok := fun _ ↦ rfl
  entry := by simp [start]
  alone := fun _ _ h ↦ absurd h id

variable {s : LogSystem ι} {l : List (List UInt8)}

theorem Inv.lt (h : s.Inv l) : l.length < 256 := (Nat.le_add_right _ _).trans_lt h.room

theorem Inv.nothingLost (h : s.Inv l) : NothingLost s := by
  rw [NothingLost, h.holds.pending_eq h.lt]; exact h.kept

theorem Inv.level_iff (h : s.Inv l) : s.buffer.readPos = s.buffer.writePos ↔ l = [] :=
  h.holds.level_iff h.lt

/-- Who can have the lock finds the thread outside its drain. -/
theorem Inv.thread_idle (h : s.Inv l) (hfree : s.Free) : s.drain none = ⟨.idle, []⟩ := by
  have hpc : s.pc ≠ .draining := by
    cases hlock : s.lock with
    | false => rw [h.lock hlock]; decide
    | true => exact (hfree hlock).1
  have hidle := h.thread hpc
  have hok := h.ok none
  rw [Drain.Ok, hidle] at hok
  exact congrArg₂ Drain.mk hidle hok

/-- `write_pos` is not where a drain reads. -/
theorem Inv.readPos_ne (h : s.Inv l) (hl : l ≠ []) : s.buffer.readPos ≠ s.buffer.writePos :=
  mt h.level_iff.1 hl

/-! ### The steps of the other threads -/

theorem Inv.push (h : s.Inv l) {call : LogCall} (hfree : s.Free) (hone : s.pushing = [])
    (hroom : s.buffer.pending.length + s.pushing.length < 255)
    (hvec : ∀ i, ∀ v ∈ (s.drain (some i)).iov, v.base ≠ s.buffer.writePos) :
    Inv { s with buffer := s.buffer.writeLine call, pushing := s.pushing ++ [call] } l := by
  rw [h.holds.pending_eq h.lt] at hroom
  -- no vector has the slot that is written to
  have hvec' (c : Option ι) : ∀ v ∈ (s.drain c).iov, v.base ≠ s.buffer.writePos := by
    cases c with
    | none => rw [h.thread_idle hfree]; simp
    | some i => exact hvec i
  have hline {i : Fin 256} (hi : i ≠ s.buffer.writePos) :
      (s.buffer.writeLine call).line i = s.buffer.line i := by
    rw [RbLogBuffer.line_writeLine, Function.update_of_ne hi]
  have htext {c : Option ι} {v : IoVec} (hv : v ∈ (s.drain c).iov) :
      v.text (s.buffer.writeLine call) = v.text s.buffer := by
    rw [IoVec.text, RbLogBuffer.writeLine]
    dsimp only
    rw [Function.update_of_ne (hvec' c v hv), IoVec.text]
  have htexts (c : Option ι) :
      (s.drain c).texts (s.buffer.writeLine call) = (s.drain c).texts s.buffer := by
    rw [Drain.texts, List.map_congr_left fun v hv ↦ htext hv, Drain.texts]
  refine ⟨h.holds.writeLine h.lt call, ?_, ?_, h.fd, h.lock, fun hpc ↦ ?_, ?_, ?_, h.thread,
    fun c ↦ (h.ok c).of_taking rfl (fun hl ↦ hline (h.readPos_ne hl)) id, fun c v hv ↦ ?_, h.alone⟩
  · rw [List.length_append, List.length_singleton]
    omega
  · dsimp only
    rw [Finset.sum_congr rfl fun c _ ↦ htexts c]
    exact h.kept
  · have hidle := h.thread_idle hfree
    cases hlock : s.lock with
    | false => exact absurd (hpc.symm.trans (h.lock hlock)) (by decide)
    | true => exact absurd hpc (hfree hlock).1
  · rw [hone]; exact le_rfl
  · dsimp only
    rw [hone, List.nil_append]
    intro c hc
    rw [List.mem_singleton.1 hc, RbLogBuffer.line_writeLine]
    exact Function.update_self _ _ _
  · rw [hline (hvec' c v hv)]
    exact h.entry c v hv

theorem Inv.pushed (h : s.Inv l) {call : LogCall} (hcall : call ∈ s.pushing) :
    Inv { s with
      buffer := { s.buffer with writePos := s.buffer.writePos + 1 }
      pushing := s.pushing.erase call
      accepted := s.accepted ++ [call.text] } (l ++ [call.text]) := by
  obtain hpush : s.pushing = [call] := by
    obtain ⟨call', hpush⟩ := List.length_eq_one_iff.1
      (le_antisymm h.one (List.length_pos_of_mem hcall))
    rw [hpush, List.mem_singleton] at hcall
    rw [hpush, hcall]
  have herase : s.pushing.erase call = [] := by rw [hpush, List.erase_cons_head]
  have hroom := h.room
  rw [hpush, List.length_singleton] at hroom
  refine ⟨h.holds.pushed (h.line call hcall), ?_, ?_, h.fd, h.lock, fun _ ↦ herase, ?_, ?_,
    h.thread, fun c ↦ (h.ok c).of_taking rfl (fun _ ↦ rfl) fun _ ↦ by simp, h.entry, h.alone⟩
  · dsimp only
    rw [herase, List.length_append, List.length_singleton]
    exact hroom
  · dsimp only
    rw [← Multiset.coe_add, h.kept, ← Multiset.coe_add, add_assoc]
    rfl
  · dsimp only
    rw [herase]
    exact Nat.zero_le _
  · dsimp only
    rw [herase]
    simp

/-- `rb_log_init` clears the buffer, which is empty. -/
theorem Inv.init (h : s.Inv l) (hpc : s.pc = .gone) (hlevel : s.buffer.readPos = s.buffer.writePos)
    (hpush : s.pushing = []) (hvec : ∀ i, (s.drain (some i)).iov = []) (created : Bool) :
    Inv { s with
      cfg := true, buffer := .zero, lock := true, run := true
      pc := if created then .created else .gone } [] := by
  obtain rfl := h.level_iff.1 hlevel
  have hidle : (s.drain none).pc = .idle := h.thread (by rw [hpc]; decide)
  have hnone (c : Option ι) : (s.drain c).iov = [] := by
    cases c with
    | none =>
      have hok := h.ok none
      rwa [Drain.Ok, hidle] at hok
    | some i => exact hvec i
  have htaking (c : Option ι) : ¬ (s.drain c).Taking := fun hc ↦ (h.ok c).ne_nil hc rfl
  have hfd := h.fd
  rw [hpc] at hfd
  refine ⟨RbLogBuffer.holds_nil rfl, ?_, ?_, ?_, fun hlock ↦ absurd hlock Bool.noConfusion,
    fun _ ↦ hpush, h.one, ?_, fun _ ↦ hidle, fun c ↦ (h.ok c).of_not_taking (htaking c), ?_,
    h.alone⟩
  · dsimp only
    rw [hpush]
    exact Nat.zero_lt_succ _
  · have hkept := h.kept
    simp only [Drain.texts, hnone] at hkept ⊢
    exact hkept
  · cases created with
    | false => exact hfd
    | true => exact hfd
  · rw [hpush]; simp
  · intro c v hv
    rw [hnone] at hv
    exact absurd hv List.not_mem_nil

/-- A destroyed lock means that there is no thread. -/
theorem Inv.lock_eq (h : s.Inv l) (hpc : s.pc ≠ .gone) : s.lock = true := by
  by_contra hlock
  exact hpc (h.lock (Bool.eq_false_iff.2 hlock))

/-- A step of the thread outside its drain leaves the messages where they are. -/
theorem Inv.of_pc (h : s.Inv l) (pc : LogThreadPc) {fd : SyslogFd} (hs : s.pc ≠ .gone)
    (hfd : fd = pc.fd) (hpc : pc ≠ .draining) (hidle : (s.drain none).pc = .idle) :
    Inv { s with pc := pc, syslogFd := fd } l :=
  ⟨h.holds, h.room, h.kept, hfd, fun hlock ↦ absurd ((h.lock_eq hs).symm.trans hlock) (by decide),
    fun ht ↦ absurd ht hpc, h.one, h.line, fun _ ↦ hidle, h.ok, h.entry, h.alone⟩

theorem Inv.shutdown (h : s.Inv l) : Inv { s with run := false, joining := true } l :=
  ⟨h.holds, h.room, h.kept, h.fd, h.lock, h.excl, h.one, h.line, h.thread, h.ok, h.entry, h.alone⟩

theorem Inv.destroy (h : s.Inv l) (hpc : s.pc = .gone) :
    Inv { s with lock := false, joining := false } l :=
  ⟨h.holds, h.room, h.kept, h.fd, fun _ ↦ hpc, h.excl, h.one, h.line, h.thread, h.ok, h.entry,
    h.alone⟩

/-- The thread has the lock. -/
theorem Inv.locked (h : s.Inv l) (hpc : s.pc = .waiting) (hfree : s.Free) :
    Inv { s with pc := .draining } l := by
  have hlock := h.lock_eq (by rw [hpc]; decide)
  have hfd := h.fd
  rw [hpc] at hfd
  exact ⟨h.holds, h.room, h.kept, hfd, fun hl ↦ absurd (hlock.symm.trans hl) (by decide),
    fun _ ↦ (hfree hlock).2, h.one, h.line, fun hne ↦ absurd rfl hne, h.ok, h.entry, h.alone⟩

/-! ### The steps of a drain -/

/-- Who has read `queue[read_pos]` is the only one. -/
theorem Inv.others (h : s.Inv l) {c : Option ι} (hc : (s.drain c).Taking) :
    ∀ e, e ≠ c → ¬ (s.drain e).Taking :=
  fun e hne he ↦ hne (h.alone e c he hc)

/-- The thread drains with the lock. -/
theorem Inv.draining (h : s.Inv l) {c : Option ι} {pc : DrainPc} (hpc : (s.drain c).pc = pc)
    (hne : pc ≠ .idle) (hc : c = none) : s.pc = .draining := by
  by_contra hnot
  exact hne (hpc.symm.trans (hc ▸ h.thread hnot))

section

variable [DecidableEq ι]

/-- What a step of a drain has to keep: it loses nothing, and it leaves alone what another drain has
read, unless no other has read anything. -/
theorem Inv.of_drain (h : s.Inv l) {c : Option ι} {d : Drain} {r : Fin 256}
    (written : List (LogDevice × List UInt8)) {l' : List (List UInt8)}
    (hholds : ({ s.buffer with readPos := r } : RbLogBuffer).Holds l') (hle : l'.length ≤ l.length)
    (hkept : ↑(s.written.map Prod.snd) + (s.drain c).texts s.buffer + ↑l =
      (↑(written.map Prod.snd) + d.texts s.buffer + ↑l' : Multiset (List UInt8)))
    (hok : d.Ok { s.buffer with readPos := r } l')
    (hentry : ∀ v ∈ d.iov, v.len = (s.buffer.line v.base).length)
    (hothers : (∀ e, e ≠ c → ¬ (s.drain e).Taking) ∨
      (r = s.buffer.readPos ∧ l' = l ∧ ¬ d.Taking))
    (hthread : c = none → s.pc = .draining) :
    Inv { s.setDrain c d with buffer := { s.buffer with readPos := r }, written := written }
      l' := by
  refine ⟨hholds, ?_, ?_, h.fd, h.lock, h.excl, h.one, h.line, fun hpc ↦ ?_, fun e ↦ ?_,
    fun e v hv ↦ ?_, fun e f he hf ↦ ?_⟩
  · exact (Nat.add_le_add_right hle _).trans_lt h.room
  · have hsum := Routing.sum_update s.drain (fun d ↦ d.texts s.buffer) c d
    refine add_right_cancel (b := (s.drain c).texts s.buffer) ?_
    calc (s.accepted : Multiset (List UInt8)) + (s.drain c).texts s.buffer
        = ∑ e, (s.drain e).texts s.buffer +
          (↑(s.written.map Prod.snd) + (s.drain c).texts s.buffer + ↑l) := by
          rw [h.kept]; ac_rfl
      _ = ↑(written.map Prod.snd) + (∑ e, (s.drain e).texts s.buffer + d.texts s.buffer) +
          ↑l' := by rw [hkept]; ac_rfl
      _ = _ := by rw [← hsum]; ac_rfl
  · by_cases hc : c = none
    · exact absurd (hthread hc) hpc
    · show (Function.update s.drain c d none).pc = .idle
      rw [Function.update_of_ne (Ne.symm hc)]
      exact h.thread hpc
  all_goals simp only [setDrain] at *
  · by_cases he : e = c
    · rw [he, Function.update_self]; exact hok
    · rw [Function.update_of_ne he]
      rcases hothers with hnone | ⟨rfl, rfl, -⟩
      · exact (h.ok e).of_not_taking (hnone e he)
      · exact h.ok e
  · by_cases he : e = c
    · rw [he, Function.update_self] at hv; exact hentry v hv
    · rw [Function.update_of_ne he] at hv; exact h.entry e v hv
  · by_cases hec : e = c <;> by_cases hfc : f = c
    · rw [hec, hfc]
    · rw [hec, Function.update_self] at he
      rw [Function.update_of_ne hfc] at hf
      rcases hothers with hnone | ⟨-, -, hd⟩
      · exact absurd hf (hnone f hfc)
      · exact absurd he hd
    · rw [Function.update_of_ne hec] at he
      rw [hfc, Function.update_self] at hf
      rcases hothers with hnone | ⟨-, -, hd⟩
      · exact absurd he (hnone e hec)
      · exact absurd hf hd
    · rw [Function.update_of_ne hec] at he
      rw [Function.update_of_ne hfc] at hf
      exact h.alone e f he hf

/-- A drain that keeps its vector. -/
theorem Inv.setDrain (h : s.Inv l) {c : Option ι} {d : Drain} (hiov : d.iov = (s.drain c).iov)
    (hok : d.Ok s.buffer l) (hothers : (∀ e, e ≠ c → ¬ (s.drain e).Taking) ∨ ¬ d.Taking)
    (hthread : c = none → s.pc = .draining) : (s.setDrain c d).Inv l :=
  h.of_drain s.written h.holds le_rfl (by rw [Drain.texts, Drain.texts, hiov]) hok
    (hiov ▸ h.entry c) (hothers.imp_right fun hd ↦ ⟨rfl, rfl, hd⟩) hthread

/-- `read_pos` moves past a message, which is in the vector now. -/
theorem Inv.next (h : s.Inv l) {c : Option ι} {v : IoVec} (hpc : (s.drain c).pc = .next v)
    (hthread : c = none → s.pc = .draining) :
    ∃ l', Inv { s.setDrain c ⟨.inner, (s.drain c).iov ++ [v]⟩ with
      buffer := { s.buffer with readPos := s.buffer.readPos + 1 } } l' := by
  have hok := h.ok c
  rw [Drain.Ok, hpc] at hok
  obtain ⟨hv, hne⟩ := hok
  obtain ⟨text, l', rfl⟩ := List.exists_cons_of_ne_nil hne
  have hlt : l'.length < 256 := (Nat.lt_succ_self _).trans h.lt
  obtain ⟨hline, hholds⟩ := h.holds.tail hlt
  have hlen : v.len = (s.buffer.line v.base).length := by rw [hv]
  have htaking : (s.drain c).Taking := by rw [Drain.Taking, hpc]; trivial
  have htext : v.text s.buffer = text := by rw [IoVec.text_eq hlen, hv]; exact hline
  refine ⟨l', h.of_drain s.written hholds (Nat.le_succ _) ?_ trivial ?_
    (.inl (h.others htaking)) hthread⟩
  · rw [Drain.texts, Drain.texts, List.map_append, List.map_singleton, htext,
      ← Multiset.coe_add, ← Multiset.cons_coe, ← Multiset.singleton_add, Multiset.coe_singleton]
    ac_rfl
  · intro w hw
    rcases List.mem_append.1 hw with hw | hw
    · exact h.entry c w hw
    · rw [List.mem_singleton.1 hw]; exact hlen

/-- `writev` hands the vector on. -/
theorem Inv.writev (h : s.Inv l) {c : Option ι}
    (hfd : (s.drain c).iov ≠ [] → s.syslogFd = .connected)
    (hthread : c = none → s.pc = .draining) :
    Inv { s.setDrain c ⟨.outer, []⟩ with
      written := s.written ++ DmmrOrbit.writev s.syslogFd s.buffer (s.drain c).iov } l := by
  have hout : ((DmmrOrbit.writev s.syslogFd s.buffer (s.drain c).iov).map Prod.snd :
      Multiset (List UInt8)) = (s.drain c).texts s.buffer := by
    by_cases hiov : (s.drain c).iov = []
    · rw [hiov, Drain.texts, hiov]
      cases s.syslogFd <;> rfl
    · rw [hfd hiov, DmmrOrbit.writev, List.map_map]
      rfl
  refine h.of_drain _ h.holds le_rfl ?_ rfl (by simp) (.inr ⟨rfl, rfl, id⟩) hthread
  rw [List.map_append, ← Multiset.coe_add, hout]
  exact congrArg (· + _) (add_zero _).symm

/-- A safe statement of a drain keeps the invariant. -/
theorem Inv.drainStep (h : s.Inv l) {c : Option ι} (hsafe : (LogEvent.drain c).Safe s)
    {t : LogSystem ι} (ht : s.drainStep c = some t) : ∃ l', t.Inv l' := by
  have hok := h.ok c
  rw [LogSystem.drainStep] at ht
  rw [Drain.Ok] at hok
  obtain ⟨hbase, hfd⟩ := hsafe
  cases hpc : (s.drain c).pc with
  | idle => rw [hpc] at ht; exact absurd ht (by simp)
  | outer =>
    rw [hpc] at ht hok
    obtain rfl := Option.some.inj ht
    refine ⟨l, h.setDrain ?_ ?_ (.inr ?_) (h.draining hpc (by decide))⟩
    all_goals split <;> first | exact hok.symm | exact id | trivial
  | inner =>
    rw [hpc] at ht
    obtain rfl := Option.some.inj ht
    refine ⟨l, h.setDrain rfl ?_ (.inr ?_) (h.draining hpc (by decide))⟩
    all_goals split <;> first | exact id | trivial
  | base =>
    rw [hpc] at ht
    obtain rfl := Option.some.inj ht
    obtain ⟨hlevel, htaking⟩ := hbase hpc
    exact ⟨l, h.setDrain rfl ⟨rfl, mt h.level_iff.2 hlevel⟩ (.inl fun e _ ↦ htaking e)
      (h.draining hpc (by decide))⟩
  | len slot =>
    rw [hpc] at ht hok
    obtain rfl := Option.some.inj ht
    have htaking : (s.drain c).Taking := by rw [Drain.Taking, hpc]; trivial
    exact ⟨l, h.setDrain rfl ⟨by rw [hok.1], hok.2⟩ (.inl (h.others htaking))
      (h.draining hpc (by simp))⟩
  | next v =>
    rw [hpc] at ht
    obtain rfl := Option.some.inj ht
    exact h.next hpc (h.draining hpc (by simp))
  | send =>
    rw [hpc] at ht
    obtain rfl := Option.some.inj ht
    have hfd' : (s.drain c).iov ≠ [] → s.syslogFd ≠ .closed := fun hiov ↦ by
      by_cases hc : c = none
      · rw [h.fd, h.draining hpc (by decide) hc]; decide
      · exact (hfd hc hiov).1 hpc
    by_cases hiov : (s.drain c).iov = []
    · have hd : (if s.syslogFd ≠ .closed ∧ (s.drain c).iov ≠ [] then ⟨.writev, (s.drain c).iov⟩
          else if c = none ∧ (s.drain c).iov ≠ [] then ⟨.fputs, (s.drain c).iov⟩
          else ⟨.outer, []⟩ : Drain) = ⟨.outer, []⟩ := by simp [hiov]
      rw [hd]
      exact ⟨l, h.setDrain hiov.symm rfl (.inr id) (h.draining hpc (by decide))⟩
    · rw [if_pos ⟨hfd' hiov, hiov⟩]
      exact ⟨l, h.setDrain rfl trivial (.inr id) (h.draining hpc (by decide))⟩
  | writev =>
    rw [hpc] at ht
    obtain rfl := Option.some.inj ht
    have hfd' : (s.drain c).iov ≠ [] → s.syslogFd = .connected := fun hiov ↦ by
      by_cases hc : c = none
      · rw [h.fd, h.draining hpc (by decide) hc]; rfl
      · exact (hfd hc hiov).2 hpc
    exact ⟨l, h.writev hfd' (h.draining hpc (by decide))⟩
  | fputs => rw [hpc] at hok; exact absurd hok id

/-! ### The steps that are not safe -/

omit [DecidableEq ι] in
theorem length_eq_of_nothingLost (h : NothingLost s) :
    s.accepted.length =
      s.written.length + ∑ c, (s.drain c).iov.length + s.buffer.pending.length := by
  have hcard := congrArg Multiset.card h
  simp only [Multiset.card_add, Multiset.card_sum, Multiset.coe_card, List.length_map,
    Drain.texts] at hcard
  exact hcard

/-- `rb_log_init` loses what is pending. -/
theorem Inv.lost_by_init (h : s.Inv l) (hl : l ≠ []) {created : Bool} {t : LogSystem ι}
    (ht : logStep s (.init created) = some t) : ¬ NothingLost t := by
  obtain ⟨-, ht⟩ := Option.ite_none_right_eq_some.1 ht
  obtain rfl := Option.some.inj ht
  have hzero : RbLogBuffer.zero.pending = [] :=
    (RbLogBuffer.holds_nil rfl).pending_eq (by decide)
  intro hlost
  have hkept := length_eq_of_nothingLost h.nothingLost
  have hkept' := length_eq_of_nothingLost hlost
  dsimp only at hkept'
  rw [h.holds.pending_eq h.lt] at hkept
  rw [hzero, List.length_nil] at hkept'
  have hpos := List.length_pos_iff_ne_nil.2 hl
  omega

/-- Without a descriptor, or with one that is not connected, `rb_log_flush` loses its vector. -/
theorem Inv.lost_by_flush (h : s.Inv l) {i : ι} (hiov : (s.drain (some i)).iov ≠ [])
    (hfd : (s.drain (some i)).pc = .send ∧ s.syslogFd = .closed ∨
      (s.drain (some i)).pc = .writev ∧ s.syslogFd ≠ .connected)
    {t : LogSystem ι} (ht : logStep s (.drain (some i)) = some t) : ¬ NothingLost t := by
  have hempty : t = s.setDrain (some i) ⟨.outer, []⟩ := by
    rw [logStep, LogSystem.drainStep] at ht
    rcases hfd with ⟨hpc, hfd⟩ | ⟨hpc, hfd⟩
    · rw [hpc] at ht
      obtain rfl := Option.some.inj ht
      simp [hfd]
    · rw [hpc] at ht
      obtain rfl := Option.some.inj ht
      have hnone : DmmrOrbit.writev s.syslogFd s.buffer (s.drain (some i)).iov = [] := by
        cases hs : s.syslogFd with
        | connected => exact absurd hs hfd
        | opened => rfl
        | closed => rfl
      rw [hnone, List.append_nil]
      rfl
  intro hlost
  have hkept := length_eq_of_nothingLost h.nothingLost
  have hkept' := length_eq_of_nothingLost hlost
  have hsum := Routing.sum_update s.drain (fun d ↦ d.iov.length) (some i) ⟨.outer, []⟩
  have hpos := List.length_pos_iff_ne_nil.2 hiov
  rw [hempty, LogSystem.setDrain] at hkept'
  dsimp only at hkept'
  rw [List.length_nil] at hsum
  omega

/-! ### All steps -/

/-- A safe step keeps the invariant. -/
theorem Inv.step (h : s.Inv l) {e : LogEvent ι} (hsafe : e.Safe s) {t : LogSystem ι}
    (ht : logStep s e = some t) : ∃ l', t.Inv l' := by
  rw [logStep.eq_def] at ht
  cases e with
  | push logLevel level call =>
    dsimp only at ht
    split at ht
    · next hacc =>
      rw [Option.ite_none_right_eq_some] at ht
      obtain ⟨⟨hfree, hroom⟩, ht⟩ := ht
      obtain rfl := Option.some.inj ht
      obtain ⟨hone, hvec⟩ := hsafe hacc
      exact ⟨l, h.push hfree hone hroom hvec⟩
    · obtain rfl := Option.some.inj ht
      exact ⟨l, h⟩
  | pushed call =>
    obtain ⟨hcall, ht⟩ := Option.ite_none_right_eq_some.1 ht
    obtain rfl := Option.some.inj ht
    exact ⟨_, h.pushed hcall⟩
  | init created =>
    obtain ⟨hpc, ht⟩ := Option.ite_none_right_eq_some.1 ht
    obtain rfl := Option.some.inj ht
    exact ⟨[], h.init hpc hsafe.1 hsafe.2.1 hsafe.2.2 created⟩
  | shutdown =>
    obtain ⟨-, ht⟩ := Option.ite_none_right_eq_some.1 ht
    obtain rfl := Option.some.inj ht
    exact ⟨l, h.shutdown⟩
  | destroy =>
    obtain ⟨⟨-, hpc⟩, ht⟩ := Option.ite_none_right_eq_some.1 ht
    obtain rfl := Option.some.inj ht
    exact ⟨l, h.destroy hpc⟩
  | socket ok =>
    obtain ⟨hpc, ht⟩ := Option.ite_none_right_eq_some.1 ht
    obtain rfl := Option.some.inj ht
    have hgone : s.pc ≠ .gone := by rw [hpc]; decide
    have hidle := h.thread (by rw [hpc]; decide)
    cases ok with
    | false => exact ⟨l, h.of_pc .gone hgone rfl (by decide) hidle⟩
    | true => exact ⟨l, h.of_pc .socketed hgone rfl (by decide) hidle⟩
  | connect ok =>
    obtain ⟨hpc, ht⟩ := Option.ite_none_right_eq_some.1 ht
    obtain rfl := Option.some.inj ht
    have hgone : s.pc ≠ .gone := by rw [hpc]; decide
    have hidle := h.thread (by rw [hpc]; decide)
    cases ok with
    | false => exact ⟨l, h.of_pc .gone hgone rfl (by decide) hidle⟩
    | true => exact ⟨l, h.of_pc .waiting hgone rfl (by decide) hidle⟩
  | lock =>
    obtain ⟨⟨hpc, hfree, -⟩, ht⟩ := Option.ite_none_right_eq_some.1 ht
    obtain rfl := Option.some.inj ht
    have hidle := h.thread_idle hfree
    exact ⟨l, (h.locked hpc hfree).setDrain (c := none) (d := ⟨.outer, []⟩)
      (by simp [hidle]) rfl (.inr id) fun _ ↦ rfl⟩
  | unlock =>
    obtain ⟨⟨hpc, hidle⟩, ht⟩ := Option.ite_none_right_eq_some.1 ht
    obtain rfl := Option.some.inj ht
    have hfd : s.syslogFd = .connected := h.fd.trans (congrArg LogThreadPc.fd hpc)
    exact ⟨l, h.of_pc .testing (by rw [hpc]; decide) hfd (by decide) hidle⟩
  | test =>
    obtain ⟨hpc, ht⟩ := Option.ite_none_right_eq_some.1 ht
    obtain rfl := Option.some.inj ht
    have hfd : s.syslogFd = .connected := h.fd.trans (congrArg LogThreadPc.fd hpc)
    have hgone : s.pc ≠ .gone := by rw [hpc]; decide
    have hidle := h.thread (by rw [hpc]; decide)
    split
    · exact ⟨l, h.of_pc .waiting hgone hfd (by decide) hidle⟩
    · exact ⟨l, h.of_pc .gone hgone rfl (by decide) hidle⟩
  | flush i =>
    obtain ⟨hpc, ht⟩ := Option.ite_none_right_eq_some.1 ht
    obtain rfl := Option.some.inj ht
    have hok := h.ok (some i)
    rw [Drain.Ok, hpc] at hok
    exact ⟨l, h.setDrain hok.symm rfl (.inr id) fun hc ↦ absurd hc (by simp)⟩
  | drain c => exact h.drainStep hsafe ht

end

end LogSystem

/-- **No message is lost** throughout a run whose steps are all safe. -/
theorem logStep_nothingLost {ι : Type} [Fintype ι] [DecidableEq ι] (es : List (LogEvent ι))
    (h : Guarded logStep (fun s e ↦ e.Safe s) (.start ι) es) :
    Always logStep NothingLost (.start ι) es :=
  always_of_guarded (fun s ↦ ∃ l, s.Inv l) (fun _ ⟨_, h⟩ ↦ h.nothingLost)
    (fun _ _ _ ⟨_, h⟩ hsafe ht ↦ h.step hsafe ht) es ⟨[], LogSystem.inv_start⟩ h

/-- A thread that is interrupted in the middle of its drain, and a flush in between. -/
def interruptedDrain : List (LogEvent Unit) :=
  let fill (c : Option Unit) : List (LogEvent Unit) := List.replicate 4 (.drain c)
  [.init true, .socket true, .connect true,
    .push 0x1f 0x08 ⟨[0x61], [0x66], 1⟩, .pushed ⟨[0x61], [0x66], 1⟩,
    .push 0x1f 0x08 ⟨[0x62], [0x66], 2⟩, .pushed ⟨[0x62], [0x66], 2⟩,
    .lock, .drain none] ++ fill none ++
  [.flush (), .drain (some ())] ++ fill (some ()) ++
  -- the vector of the thread has one message, that of the flush the other
  List.replicate 3 (.drain none) ++ List.replicate 3 (.drain (some ())) ++
  [.drain none, .unlock]

theorem logStep_nothingLost_interrupted :
    ∃ s, run logStep (.start Unit) interruptedDrain = some s ∧ s.accepted.length = 2 ∧
      s.written.length = 2 ∧ NothingLost s := by
  have hsafe : Guarded logStep (fun s e ↦ e.Safe s) (.start Unit) interruptedDrain := by
    decide +kernel
  have hrun : (run logStep (.start Unit) interruptedDrain).map
      (fun s ↦ (s.accepted.length, s.written.length)) = some (2, 2) := by decide +kernel
  obtain ⟨s, hs, hlen⟩ := Option.map_eq_some_iff.1 hrun
  rw [Prod.mk.injEq] at hlen
  exact ⟨s, hs, hlen.1, hlen.2, (logStep_nothingLost _ hsafe).of_run hs⟩

/-- A message is pushed before `rb_log_init`, which clears the buffer. -/
theorem not_nothingLost :
    ¬ ∀ es : List (LogEvent Unit), Always logStep NothingLost (.start Unit) es := by
  intro h
  have hrun : (run logStep (.start Unit)
      [.push 0 0x08 ⟨[0x61], [0x66], 1⟩, .pushed ⟨[0x61], [0x66], 1⟩, .init true]).map
      (fun s ↦ decide (NothingLost s)) = some false := by decide +kernel
  obtain ⟨s, hs, hlost⟩ := Option.map_eq_some_iff.1 hrun
  exact of_decide_eq_false hlost ((h _).of_run hs)

end DmmrOrbit
