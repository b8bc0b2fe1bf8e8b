import DmmrOrbit.Scheduler.NullSession
import DmmrOrbit.Socket.UdpReceiver

/-!
# The time base of the deadlines

`receiver_thread` stamps a node with a deadline, `sched_insert` and `sched_snd` copy it into a slot,
and `_check_and_send_thread` compares it with the time.  The stamp is a reading of the real clock in
nanoseconds; the time it is compared with is one of the monotonic clock in microseconds.

The clocks run at one rate here, and the real one is ahead of the other by a constant `offset`,
which may be negative.  An instant is what the monotonic clock shows then, in nanoseconds.  What is
left until a deadline of the instant `t` falls due, `timeLeft`, may be compared with 0 up to the
rounding to microseconds, `OnTime`.  The program compares it with `deadlineError` instead, and
`onTime_iff` says when that makes no difference.
-/

set_option autoImplicit false

namespace DmmrOrbit

/-! ## The clocks -/

/-- A clock that shows so many nanoseconds. -/
def Timespec.ofNanos (r : ℕ) : Timespec := ⟨r / 1000000000, r % 1000000000⟩

/-- What the real clock shows at the instant `t`. -/
def realtimeAt (offset : ℤ) (t : ℕ) : Timespec := .ofNanos (t + offset).toNat

/-- `_get_monotonic_time_us`, with what `clock_gettime` has stored. -/
def getMonotonicTimeUs (ts : Timespec) : UInt64 :=
  UInt64.ofNat (ts.tvSec * 1000000 + ts.tvNsec / 1000)

theorem Timespec.nanos_ofNanos (r : ℕ) : (Timespec.ofNanos r).nanos = UInt64.ofNat r := by
  rw [nanos, ofNanos]
  congr 1
  dsimp only
  omega

theorem getMonotonicTimeUs_ofNanos (r : ℕ) :
    getMonotonicTimeUs (.ofNanos r) = UInt64.ofNat (r / 1000) := by
  rw [getMonotonicTimeUs, Timespec.ofNanos]
  congr 1
  dsimp only
  omega

/-! ## The way of a deadline -/

section

variable {mtu : MtuProfile}

/-- The node of a datagram that `receiver_thread` stamps at the instant `t`. -/
def nodeStampedAt (offset : ℤ) (t : ℕ) (node : UdpNode) (d : Datagram mtu) (n : Node) : Node :=
  fillNode node d (some (.ofNanos t)) (some (realtimeAt offset t)) n

theorem deadline_nodeStampedAt (offset : ℤ) (t : ℕ) (node : UdpNode) (d : Datagram mtu) (n : Node) :
    (nodeStampedAt offset t node d n).deadline = UInt64.ofNat (t + offset).toNat :=
  Timespec.nanos_ofNanos _

end

/-- The times of a slot, where they are copied from the node `n`: by `sched_insert` of a session
whose pool starts with it, or by `sched_snd` when it has come to stand first. -/
inductive CopiedFrom (n : Node) : SchedulerConnection → Prop
  | bySchedInsert {ι : Type} (deadline : UInt64) (p : ι) :
    CopiedFrom n (schedInsertSlot deadline p n).toSchedulerConnection
  | bySchedSnd (sc : SchedulerConnection) (conn : SessionConnectionPool Node) (ns : List Node)
    (linked : (getSessionPointer conn.session).isSome)
    (first : (schedSnd id sc conn ns).2.2.1.head? = some n) :
    CopiedFrom n (schedSnd id sc conn ns).1

theorem CopiedFrom.realtimeDeadlineUs {n : Node} {sc : SchedulerConnection}
    (h : CopiedFrom n sc) : sc.realtimeDeadlineUs = n.deadline := by
  cases h with
  | bySchedInsert deadline p => rfl
  | bySchedSnd sc conn ns linked first =>
    obtain ⟨u, hlink⟩ := Option.isSome_iff_exists.1 linked
    rw [schedSnd, hlink] at first ⊢
    dsimp only at first ⊢
    split
    · next hnil => rw [hnil] at first; exact absurd first (by simp)
    · next a _ hcons =>
      rw [hcons, List.head?_cons, Option.some_inj] at first
      rw [← first]
      rfl

/-! ## The test -/

/-- The nanoseconds from the instant `t` until `period` microseconds after the instant `t'`. -/
def timeLeft (t t' : ℕ) (period : UInt64) : ℤ := t' + 1000 * period.toNat - t

/-- The test is right up to less than a microsecond: it holds if the deadline is past, and not if
it is still to come. -/
def OnTime (due : Prop) (left : ℤ) : Prop := (1000 ≤ left → due) ∧ (left ≤ -1000 → ¬ due)

/-- How far nanoseconds of the real clock, taken for microseconds of the monotonic one, are ahead of
the instant `t`. -/
def deadlineError (offset : ℤ) (t : ℕ) : ℤ := 999 * t + 1000 * offset

/-- What the test of `_check_and_send_thread` comes to. -/
theorem dueAt_iff {ι : Type} {offset : ℤ} {t t' : ℕ} {period : UInt64}
    {slots : List (SchedulerSlot ι)} {i : ℕ}
    (hdeadline : (slots.getD i .zero).realtimeDeadlineUs = UInt64.ofNat (t + offset).toNat)
    (hreal : 0 ≤ t + offset) (hreal64 : t + offset < 2 ^ 64)
    (hnow64 : t' / 1000 + period.toNat < 2 ^ 64) :
    DueAt (getMonotonicTimeUs (.ofNanos t') + period) slots i ↔
      deadlineError offset t ≤ timeLeft t t' period := by
  have hnow : (getMonotonicTimeUs (.ofNanos t') + period).toNat = t' / 1000 + period.toNat := by
    rw [UInt64.toNat_add, getMonotonicTimeUs_ofNanos, UInt64.toNat_ofNat']
    omega
  have hstored : (UInt64.ofNat (t + offset).toNat).toNat = (t + offset).toNat := by
    rw [UInt64.toNat_ofNat']
    omega
  rw [DueAt, ge_iff_le, UInt64.le_iff_toNat_le, hdeadline, hnow, hstored, deadlineError, timeLeft]
  omega

/-- **When a deadline falls due in time.**  For clocks that run at one rate and any offset, every
node that `receiver_thread` stamps at an instant `t` and every slot its deadline is copied into, and
every pass at an instant `t'`: the pass's test is right, up to less than a microsecond, if and only
if the time left is not on different sides of 0 and of the error. -/
theorem onTime_iff {mtu : MtuProfile} {ι : Type} (offset : ℤ) (t t' : ℕ) (period : UInt64)
    (node : UdpNode) (d : Datagram mtu) (n : Node) {slots : List (SchedulerSlot ι)} {i : ℕ}
    (hcopy : CopiedFrom (nodeStampedAt offset t node d n)
      (slots.getD i .zero).toSchedulerConnection)
    (hreal : 0 ≤ t + offset) (hreal64 : t + offset < 2 ^ 64)
    (hnow64 : t' / 1000 + period.toNat < 2 ^ 64) :
    OnTime (DueAt (getMonotonicTimeUs (.ofNanos t') + period) slots i) (timeLeft t t' period) ↔
      (1000 ≤ timeLeft t t' period → deadlineError offset t ≤ timeLeft t t' period) ∧
        (timeLeft t t' period ≤ -1000 → timeLeft t t' period < deadlineError offset t) := by
  have hdeadline := hcopy.realtimeDeadlineUs.trans (deadline_nodeStampedAt offset t node d n)
  rw [OnTime, dueAt_iff hdeadline hreal hreal64 hnow64, not_le]

/-- A datagram of two bytes. -/
def twoBytes : Datagram .mtu1500 := ⟨default, [1, 2], by decide⟩

/-- A slot whose session's first node was stamped at the instant `t`. -/
def stampedSlots (offset : ℤ) (t : ℕ) : List (SchedulerSlot Unit) :=
  [schedInsertSlot 0 () (nodeStampedAt offset t (.zero .mtu1500) twoBytes (.zero .mtu1500))]

/-- With the clocks together, a deadline that was stamped one second after the start is due a
thousand seconds later, which is more than the 999 seconds that the test is wrong by. -/
theorem onTime_in_the_end :
    OnTime (DueAt (getMonotonicTimeUs (.ofNanos 1001000000000) + 0) (stampedSlots 0 1000000000) 0)
      (timeLeft 1000000000 1001000000000 0) := by
  have hcopy : CopiedFrom (nodeStampedAt 0 1000000000 (.zero .mtu1500) twoBytes (.zero .mtu1500))
      ((stampedSlots 0 1000000000).getD 0 .zero).toSchedulerConnection := .bySchedInsert 0 ()
  have hleft : timeLeft 1000000000 1001000000000 0 = 1000000000000 := rfl
  have herror : deadlineError 0 1000000000 = 999000000000 := rfl
  have hiff := onTime_iff 0 1000000000 1001000000000 0 (.zero .mtu1500) twoBytes (.zero .mtu1500)
    hcopy (by decide) (by decide) (by decide)
  rw [hiff, hleft, herror]
  decide

/-- A deadline that was stamped one second after the machine's start is not due a second later,
while the real clock counts the seconds since 1970. -/
theorem onTime_fails :
    ¬ OnTime (DueAt (getMonotonicTimeUs (.ofNanos 2000000000) + 0)
      (stampedSlots 1700000000000000000 1000000000) 0) (timeLeft 1000000000 2000000000 0) := by
  intro h
  have hdeadline : ((stampedSlots 1700000000000000000 1000000000).getD 0 .zero).realtimeDeadlineUs =
      UInt64.ofNat (((1000000000 : ℕ) : ℤ) + 1700000000000000000).toNat :=
    deadline_nodeStampedAt 1700000000000000000 1000000000 (.zero .mtu1500) twoBytes (.zero .mtu1500)
  have hdue := (dueAt_iff hdeadline (by decide) (by decide) (by decide)).1 (h.1 (by decide))
  exact absurd hdue (by decide)

end DmmrOrbit
