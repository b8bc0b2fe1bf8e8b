import DmmrOrbit.CircleBuffer.Ring
import DmmrOrbit.Lib.CircleQueue

/-!
# A lap of the ring

`start` of `dmmr_circle_buffer.c` appends the entries of the array to a `CIRCLEQ` one by one
(`CircleqHead.start`), after which the queue holds exactly these entries in the order of the array
(`start_holds`).  The two walks over it, `foward_current_node` and `iterate`, are defined here on
the queue itself, and `fowardCurrentNode_link` says that the moves of a pointer in the ring
described elsewhere are those on this queue.

`WholeRing N k` says that the whole ring is used: the queue holds the `N` entries and `k` moves of
either kind lead to entry `k mod N`.  Both walks turn back at the last entry instead of behind it,
so they are on a lap of `N - 1` entries, and the two counts agree for the first `N - 1` of every
`N * (N - 1)` moves (`wholeRing_iff`).
-/

set_option autoImplicit false

namespace DmmrOrbit

open CircleQueue

/-- `struct circleq_head`, with the links of the entries, which are the indices of the array. -/
abbrev CircleqHead := Queue ℕ

namespace CircleqHead

/-- The `do … while` loop of `start`. -/
def insertEntries (circleBufferSize : ℕ) : ℕ → ℕ → CircleqHead → CircleqHead
  | 0, _, head => head
  | fuel + 1, p, head =>
    if p + 1 < circleBufferSize then
      insertEntries circleBufferSize fuel (p + 1) (insertTail head p)
    else insertTail head p

/-- The queue that `start` builds, when `calloc` has returned an array. -/
def start (circleBufferSize : ℕ) (head : CircleqHead) : CircleqHead :=
  insertEntries circleBufferSize (max 1 circleBufferSize) 0 (init head)

variable (q : CircleqHead)

/-- The cursor that `start` sets. -/
def startCursor : Option (Link ℕ) := if isEmpty q then none else some q.first

/-- `CIRCLEQ_NEXT`.  Read from the head taken for an entry it would be some other bytes of the
program; here it stays at the head. -/
def circleqNext : Link ℕ → Link ℕ
  | .elm i => q.next i
  | .head => .head

/-- `foward_current_node`. -/
def fowardCurrentNode (cursor : Link ℕ) : Link ℕ :=
  let next := q.circleqNext cursor
  if next = q.last then q.first else next

/-- `iterate`; `none` is the null pointer. -/
def iterate : Option (Link ℕ) → Option (Link ℕ)
  | none => none
  | some cursor =>
    if isEmpty q then none
    else
      let next := q.circleqNext cursor
      some (if next = q.last then q.first else next)

end CircleqHead

/-! ## The queue that is built -/

open CircleqHead

theorem insertEntries_holds {N : ℕ} (fuel p : ℕ) {q : CircleqHead} (hp : p < N)
    (hfuel : fuel = N - p) (h : Holds q (List.range p)) :
    Holds (insertEntries N fuel p q) (List.range N) := by
  induction fuel generalizing p q with
  | zero => omega
  | succ fuel ih =>
    have hins : Holds (insertTail q p) (List.range (p + 1)) := by
      rw [List.range_succ]
      exact h.insertTail (by simp)
    rw [insertEntries]
    split
    · next hlt => exact ih (p + 1) hlt (by omega) hins
    · next hge =>
      obtain rfl : N = p + 1 := by omega
      exact hins

/-- The queue holds the entries of the array, in its order. -/
theorem start_holds {N : ℕ} (hN : 1 ≤ N) (head : CircleqHead) :
    Holds (CircleqHead.start N head) (List.range N) :=
  insertEntries_holds _ 0 hN (by omega) (holds_init head)

/-! ## The two walks -/

/-- An element of the ring as a link of the queue. -/
def Elm.link {N : ℕ} : Elm N → Link ℕ
  | .entry i => .elm i
  | .head => .head

theorem Elm.link_injective {N : ℕ} : Function.Injective (Elm.link (N := N)) := by
  rintro (i | _) (j | _) h
  · exact congrArg Elm.entry (Fin.ext (Link.elm.inj h))
  · exact absurd h (by simp [link])
  · exact absurd h (by simp [link])
  · rfl

section

variable {N : ℕ} {q : CircleqHead}

theorem circleqNext_link (h : Holds q (List.range N)) (e : Elm N) :
    q.circleqNext e.link = (circleqNext e).link := by
  cases e with
  | head => rfl
  | entry i =>
    have hi : i.val < (List.range N).length := by simp
    have hnext := h.next i hi
    rw [List.getElem_range] at hnext
    rw [Elm.link, CircleqHead.circleqNext, hnext, circleqNext]
    split
    · next hlt => rw [List.getElem?_range hlt]; rfl
    · next hge => rw [List.getElem?_eq_none (by simpa using hge)]; rfl

variable [NeZero N]

theorem first_eq_link (h : Holds q (List.range N)) :
    q.first = (circleqFirst : Elm N).link := by
  have hN : 0 < N := Nat.pos_of_neZero N
  rw [h.first, List.head?_range, if_neg hN.ne']
  rfl

theorem last_eq_link (h : Holds q (List.range N)) :
    q.last = (circleqLast : Elm N).link := by
  have hN : 0 < N := Nat.pos_of_neZero N
  rw [h.last, List.getLast?_range, if_neg hN.ne']
  rfl

/-- Moving forward in the queue is moving forward in the ring. -/
theorem fowardCurrentNode_link (h : Holds q (List.range N)) (e : Elm N) :
    q.fowardCurrentNode e.link = (fowardCurrentNode e).link := by
  rw [CircleqHead.fowardCurrentNode, circleqNext_link h, first_eq_link h, last_eq_link h,
    fowardCurrentNode]
  simp only [Elm.link_injective.eq_iff]
  split <;> rfl

theorem isEmpty_range (h : Holds q (List.range N)) : isEmpty q = false := by
  rw [isEmpty, first_eq_link h]; rfl

/-- `iterate` moves as `foward_current_node` does. -/
theorem iterate_some (h : Holds q (List.range N)) (c : Link ℕ) :
    q.iterate (some c) = some (q.fowardCurrentNode c) := by
  rw [CircleqHead.iterate, if_neg (by rw [isEmpty_range h]; decide)]
  rfl

theorem iterate_iterate (h : Holds q (List.range N)) (k : ℕ) (c : Link ℕ) :
    q.iterate^[k] (some c) = some (q.fowardCurrentNode^[k] c) := by
  induction k with
  | zero => rfl
  | succ k ih => rw [Function.iterate_succ_apply', ih, iterate_some h, Function.iterate_succ_apply']

theorem foward_iterate_link (h : Holds q (List.range N)) (k : ℕ) :
    q.fowardCurrentNode^[k] q.first = (fowardCurrentNode^[k] (circleqFirst : Elm N)).link := by
  induction k with
  | zero => exact first_eq_link h
  | succ k ih =>
    rw [Function.iterate_succ_apply', ih, fowardCurrentNode_link h, Function.iterate_succ_apply']

end

/-! ## The whole ring -/

/-- The whole ring is used: after `start` the queue holds the `N` entries, and `k` moves from the
first one lead to entry `k mod N`. -/
structure WholeRing (N k : ℕ) (head : CircleqHead) : Prop where
  holds : Holds (CircleqHead.start N head) (List.range N)
  cursor : (CircleqHead.start N head).startCursor = some (.elm 0)
  foward : (CircleqHead.start N head).fowardCurrentNode^[k] (.elm 0) = .elm (k % N)
  iterate : (CircleqHead.start N head).iterate^[k] (some (.elm 0)) = some (.elm (k % N))

/-- The remainders by two consecutive numbers agree at the start of every period. -/
theorem mod_eq_mod_succ_iff {m : ℕ} (k : ℕ) (hm : 0 < m) :
    k % m = k % (m + 1) ↔ k % ((m + 1) * m) < m := by
  have hdm : k % ((m + 1) * m) % m = k % m := Nat.mod_mod_of_dvd k (Nat.dvd_mul_left m (m + 1))
  have hdn : k % ((m + 1) * m) % (m + 1) = k % (m + 1) :=
    Nat.mod_mod_of_dvd k (Nat.dvd_mul_right (m + 1) m)
  have hlt : k % ((m + 1) * m) < (m + 1) * m := Nat.mod_lt k (Nat.mul_pos m.succ_pos hm)
  rw [← hdm, ← hdn]
  generalize k % ((m + 1) * m) = r at hlt
  constructor
  · intro h
    have hle : r % m ≤ r := Nat.mod_le r m
    have hdvd : (m + 1) * m ∣ r - r % m := by
      refine Nat.Coprime.mul_dvd_of_dvd_of_dvd ?_ ?_ (Nat.dvd_sub_mod r)
      · simp
      · rw [h]; exact Nat.dvd_sub_mod r
    have hzero : r - r % m = 0 := Nat.eq_zero_of_dvd_of_lt hdvd (by omega)
    have hrm : r % m < m := Nat.mod_lt r hm
    omega
  · intro h
    rw [Nat.mod_eq_of_lt h, Nat.mod_eq_of_lt (by omega)]

/-- Where `k` moves lead to. -/
theorem foward_iterate_first_iff {N : ℕ} [NeZero N] (k : ℕ) :
    (fowardCurrentNode^[k] (circleqFirst : Elm N)).link = .elm (k % N) ↔
      k = 0 ∨ k % (N * (N - 1)) < N - 1 := by
  have hpos : 0 < N := Nat.pos_of_neZero N
  rcases Nat.lt_or_ge 1 N with hN | hN
  · obtain ⟨m, rfl⟩ : ∃ m, N = m + 1 := ⟨N - 1, by omega⟩
    have hm : 0 < m := by omega
    rw [foward_iterate hN, Elm.link, Link.elm.injEq, Nat.add_sub_cancel, ← mod_eq_mod_succ_iff k hm]
    constructor
    · exact Or.inr
    · rintro (rfl | h)
      · simp [slot]
      · exact h
  · -- the only entry is left for the head at once
    obtain rfl : N = 1 := by omega
    have hhead (k : ℕ) : fowardCurrentNode^[k + 1] (circleqFirst : Elm 1) = .head := by
      induction k with
      | zero => simp [fowardCurrentNode, circleqNext, circleqFirst, circleqLast]
      | succ k ih =>
        rw [Function.iterate_succ_apply', ih]
        simp [fowardCurrentNode, circleqNext, circleqLast]
    cases k with
    | zero => simp [Elm.link, circleqFirst]
    | succ k => rw [hhead]; simp [Elm.link]

/-- **The whole ring is used** exactly for the first `N - 1` of every `N * (N - 1)` moves. -/
theorem wholeRing_iff {N : ℕ} (hN : 1 ≤ N) (k : ℕ) (head : CircleqHead) :
    WholeRing N k head ↔ k = 0 ∨ k % (N * (N - 1)) < N - 1 := by
  have : NeZero N := ⟨by omega⟩
  have h := start_holds hN head
  have hfirst : (CircleqHead.start N head).first = .elm 0 := first_eq_link h
  have hmoves := foward_iterate_link h k
  rw [hfirst] at hmoves
  rw [← foward_iterate_first_iff, ← hmoves]
  refine ⟨fun hw ↦ hw.foward, fun heq ↦ ⟨h, ?_, heq, ?_⟩⟩
  · rw [startCursor, if_neg (by rw [isEmpty_range h]; decide), hfirst]
  · rw [iterate_iterate h, heq]

/-- With three entries, one move leads from the first to the second. -/
theorem wholeRing_three : 1 ≤ 3 ∧ WholeRing 3 1 ⟨.head, .head, fun _ ↦ .head, fun _ ↦ .head⟩ :=
  ⟨by decide, (wholeRing_iff (by decide) 1 _).2 (by decide)⟩

/-- With two entries, one move leads back to the first. -/
theorem not_wholeRing : ¬ ∀ (N k : ℕ) (head : CircleqHead), 1 ≤ N → WholeRing N k head := by
  intro h
  have hfoward := (h 2 1 ⟨.head, .head, fun _ ↦ .head, fun _ ↦ .head⟩ (by decide)).foward
  exact absurd hfoward (by decide)

end DmmrOrbit
