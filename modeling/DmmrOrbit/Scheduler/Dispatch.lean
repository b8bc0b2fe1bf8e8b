import DmmrOrbit.Lib.BinaryInsertion
import DmmrOrbit.Scheduler.Slots

/-!
# Order and dispatch

`_reorder_thread` sorts the slots by their deadlines, and `_check_and_send_thread` hands those that
are due to `trigger_send`, from the first one on up to the first that is not due.  This is right
because the slots are sorted, although each `trigger_send` may change the slot it is given.

The sort is the insertion with binary search of `BinaryInsertion`.  Its indices are of type `int`
in the source, and `reorderThreadPass` is the pass with that arithmetic: it is `none` where the sum
of two indices is no `int`.  Where it is not it does what `reorderPass` does.

`deadlineDispatch_iff` says for which tables the two passes do what they are there for: those in
which no search adds up two indices to `2 ^ 31`.  Up to `2 ^ 30` slots there is none that does
(`searchesFit_of_le`).
-/

set_option autoImplicit false

namespace DmmrOrbit

open BinaryInsertion

section

variable {ι : Type}

/-! ## The pass of the reorder thread -/

/-- What an `int` stays below. -/
def intLimit : ℕ := 2 ^ 31

/-- The key of the sort. -/
def SchedulerSlot.deadline (c : SchedulerSlot ι) : ℕ := c.realtimeDeadlineUs.toNat

/-- The search for the place of a key, with indices of type `int`. -/
def searchDeadlineInt (sorted : List (SchedulerSlot ι)) (key : UInt64) : Option ℕ :=
  bisectBelow intLimit (fun mid ↦ (sorted.getD mid .zero).realtimeDeadlineUs ≤ key) sorted.length 0
    sorted.length

def insertByDeadlineInt (sorted : List (SchedulerSlot ι)) (key : SchedulerSlot ι) :
    Option (List (SchedulerSlot ι)) :=
  (searchDeadlineInt sorted key.realtimeDeadlineUs).map fun left ↦
    sorted.take left ++ key :: sorted.drop left

/-- One locked pass of `_reorder_thread` over the slots in use. -/
def reorderThreadPass (slots : List (SchedulerSlot ι)) : Option (List (SchedulerSlot ι)) :=
  slots.foldlM insertByDeadlineInt []

/-- How many of the slots are due no later than the one that is inserted. -/
def rank (slots : List (SchedulerSlot ι)) (c : SchedulerSlot ι) : ℕ :=
  slots.countP fun x ↦ x.deadline ≤ c.deadline

/-- No search adds up two indices to `2 ^ 31`: each slot's place among those before it is found by
halving with sums below that. -/
def SearchesFit (slots : List (SchedulerSlot ι)) : Prop :=
  ∀ i c, slots[i]? = some c → SumsBelow intLimit (rank (slots.take i) c) i 0 i

/-! ## The pass as a sort -/

section

variable {sorted slots : List (SchedulerSlot ι)}

/-- The two searches ask one question. -/
theorem getD_le_iff (sorted : List (SchedulerSlot ι)) (key : SchedulerSlot ι) {i : ℕ}
    (hi : i < sorted.length) :
    decide ((sorted.getD i .zero).realtimeDeadlineUs ≤ key.realtimeDeadlineUs) = true ↔
      sorted[i].deadline ≤ key.deadline := by
  rw [decide_eq_true_iff, List.getD_eq_getElem _ _ hi, UInt64.le_iff_toNat_le]
  rfl

theorem searchDeadline_eq_bisect (sorted : List (SchedulerSlot ι)) (key : UInt64)
    (fuel left right : ℕ) :
    searchDeadline sorted key fuel left right =
      bisect (fun mid ↦ (sorted.getD mid .zero).realtimeDeadlineUs ≤ key) fuel left right := by
  induction fuel generalizing left right with
  | zero => rfl
  | succ fuel ih =>
    rw [searchDeadline, bisect]
    simp only [decide_eq_true_eq, ih]

/-- The question splits the sorted slots at the rank of the key. -/
theorem splits_rank (h : Ascending SchedulerSlot.deadline sorted) (key : SchedulerSlot ι) :
    Splits (fun mid ↦ (sorted.getD mid .zero).realtimeDeadlineUs ≤ key.realtimeDeadlineUs)
      (rank sorted key) 0 sorted.length :=
  h.splits key.deadline fun _ hi ↦ getD_le_iff sorted key hi

theorem insertByDeadline_eq (h : Ascending SchedulerSlot.deadline sorted)
    (key : SchedulerSlot ι) :
    insertByDeadline sorted key = insertBehind SchedulerSlot.deadline sorted key := by
  have hsearch : searchDeadline sorted key.realtimeDeadlineUs sorted.length 0 sorted.length =
      rank sorted key := by
    rw [searchDeadline_eq_bisect]
    exact bisect_eq (splits_rank h key) (Nat.zero_le _) List.countP_le_length (Nat.le_refl _)
  rw [insertByDeadline, hsearch]
  exact (h.insertBehind_eq key rfl).symm

/-- A pass is the sort. -/
theorem reorderPass_eq (slots : List (SchedulerSlot ι)) :
    reorderPass slots = sortBehind SchedulerSlot.deadline slots := by
  induction slots using List.reverseRecOn with
  | nil => rfl
  | append_singleton slots c ih =>
    rw [sortBehind_concat, ← ih, ← insertByDeadline_eq, reorderPass, List.foldl_append]
    · rfl
    · rw [ih]
      exact (sorted_sortBehind _ _).ascending

theorem reorderPass_sorted (slots : List (SchedulerSlot ι)) :
    Sorted SchedulerSlot.deadline slots (reorderPass slots) :=
  reorderPass_eq slots ▸ sorted_sortBehind _ slots

/-- The insertion with `int` indices, where they suffice. -/
theorem insertByDeadlineInt_eq_some (h : Ascending SchedulerSlot.deadline sorted)
    {key : SchedulerSlot ι}
    (hsums : SumsBelow intLimit (rank sorted key) sorted.length 0 sorted.length) :
    insertByDeadlineInt sorted key = some (insertByDeadline sorted key) := by
  have hsearch : searchDeadlineInt sorted key.realtimeDeadlineUs = some (rank sorted key) :=
    bisectBelow_eq_some (splits_rank h key) (Nat.zero_le _) List.countP_le_length (Nat.le_refl _)
      hsums
  rw [insertByDeadlineInt, hsearch, insertByDeadline_eq h]
  exact congrArg some (h.insertBehind_eq key rfl).symm

theorem insertByDeadlineInt_eq_none (h : Ascending SchedulerSlot.deadline sorted)
    {key : SchedulerSlot ι}
    (hsums : ¬ SumsBelow intLimit (rank sorted key) sorted.length 0 sorted.length) :
    insertByDeadlineInt sorted key = none := by
  have hsearch : searchDeadlineInt sorted key.realtimeDeadlineUs = none :=
    bisectBelow_eq_none (splits_rank h key) hsums
  rw [insertByDeadlineInt, hsearch]
  rfl

theorem searchesFit_concat {c : SchedulerSlot ι} :
    SearchesFit (slots ++ [c]) ↔
      SearchesFit slots ∧ SumsBelow intLimit (rank slots c) slots.length 0 slots.length := by
  constructor
  · intro h
    refine ⟨fun i x hx ↦ ?_, ?_⟩
    · have hi : i < slots.length := (List.getElem?_eq_some_iff.1 hx).1
      have hfit := h i x (by rw [List.getElem?_append_left hi, hx])
      rwa [List.take_append_of_le_length hi.le] at hfit
    · have hfit := h slots.length c (by simp)
      rwa [List.take_left] at hfit
  · rintro ⟨h, hlast⟩ i x hx
    rcases Nat.lt_trichotomy i slots.length with hi | rfl | hi
    · rw [List.getElem?_append_left hi] at hx
      rw [List.take_append_of_le_length hi.le]
      exact h i x hx
    · obtain rfl : c = x := by simpa using hx
      rw [List.take_left]
      exact hlast
    · rw [List.getElem?_eq_none (by rw [List.length_append, List.length_singleton]; omega)] at hx
      exact absurd hx (by simp)

theorem reorderThreadPass_concat (slots : List (SchedulerSlot ι)) (c : SchedulerSlot ι) :
    reorderThreadPass (slots ++ [c]) =
      (reorderThreadPass slots).bind fun sorted ↦ insertByDeadlineInt sorted c := by
  rw [reorderThreadPass, List.foldlM_append]
  exact congrArg _ (funext fun sorted ↦ by simp)

/-- Among slots that are in another order a slot has the same rank. -/
theorem rank_eq_of_sorted (h : Sorted SchedulerSlot.deadline slots sorted) (c : SchedulerSlot ι) :
    rank sorted c = rank slots c :=
  h.perm.countP_eq _

theorem reorderThreadPass_eq_some (h : SearchesFit slots) :
    reorderThreadPass slots = some (reorderPass slots) := by
  induction slots using List.reverseRecOn with
  | nil => rfl
  | append_singleton slots c ih =>
    obtain ⟨h, hlast⟩ := searchesFit_concat.1 h
    have hsorted := reorderPass_sorted slots
    rw [← rank_eq_of_sorted hsorted, ← hsorted.perm.length_eq] at hlast
    rw [reorderThreadPass_concat, ih h, Option.bind_some,
      insertByDeadlineInt_eq_some hsorted.ascending hlast, reorderPass, reorderPass,
      List.foldl_append]
    rfl

theorem reorderThreadPass_eq_none (h : ¬ SearchesFit slots) : reorderThreadPass slots = none := by
  induction slots using List.reverseRecOn with
  | nil => exact absurd (fun i c hc ↦ absurd hc (by simp)) h
  | append_singleton slots c ih =>
    rw [reorderThreadPass_concat]
    by_cases hfit : SearchesFit slots
    · have hlast := fun hsums ↦ h (searchesFit_concat.2 ⟨hfit, hsums⟩)
      have hsorted := reorderPass_sorted slots
      rw [← rank_eq_of_sorted hsorted, ← hsorted.perm.length_eq] at hlast
      rw [reorderThreadPass_eq_some hfit, Option.bind_some,
        insertByDeadlineInt_eq_none hsorted.ascending hlast]
    · rw [ih hfit, Option.bind_none]

/-- A pass that comes to an end has sorted the slots. -/
theorem eq_reorderPass_of_some (h : reorderThreadPass slots = some sorted) :
    sorted = reorderPass slots := by
  by_cases hfit : SearchesFit slots
  · rw [reorderThreadPass_eq_some hfit] at h
    exact (Option.some.inj h).symm
  · rw [reorderThreadPass_eq_none hfit] at h
    exact absurd h (by simp)

/-- In a table of up to `2 ^ 30` slots, and one more, all searches fit. -/
theorem searchesFit_of_le (h : slots.length ≤ 2 ^ 30 + 1) : SearchesFit slots := by
  intro i c hc
  have hi : i < slots.length := (List.getElem?_eq_some_iff.1 hc).1
  exact sumsBelow_of_le (by rw [intLimit]; omega) _

end

/-! ## The pass of the send thread -/

variable {σ : Type}

/-- The test of `_check_and_send_thread`: the slot at the position is due. -/
def DueAt (threshold : UInt64) (slots : List (SchedulerSlot ι)) (i : ℕ) : Prop :=
  threshold ≥ (slots.getD i .zero).realtimeDeadlineUs

instance (threshold : UInt64) (slots : List (SchedulerSlot ι)) (i : ℕ) :
    Decidable (DueAt threshold slots i) :=
  inferInstanceAs (Decidable (_ ≥ _))

/-- What a pass of `_check_and_send_thread` leaves: the slots, what else `trigger_send` works on,
and the positions of the slots that were handed to it, in order. -/
structure SendPass (σ ι : Type) where
  slots : List (SchedulerSlot ι)
  state : σ
  sent : List ℕ

/-- The loop over the `left` slots from position `i` on.  `trigger` is `trigger_send` on the slot at
a position.  It may read all there is but changes no other slot; `none` stands for a call that does
not come back. -/
def checkAndSendFrom (threshold : UInt64)
    (trigger : σ → List (SchedulerSlot ι) → ℕ → Option (σ × SchedulerSlot ι)) :
    ℕ → ℕ → σ → List (SchedulerSlot ι) → Option (SendPass σ ι)
  | 0, _, st, slots => some ⟨slots, st, []⟩
  | left + 1, i, st, slots =>
    if DueAt threshold slots i then
      (trigger st slots i).bind fun out ↦
        (checkAndSendFrom threshold trigger left (i + 1) out.1 (slots.set i out.2)).map fun pass ↦
          { pass with sent := i :: pass.sent }
    else some ⟨slots, st, []⟩

/-- One locked pass of `_check_and_send_thread` over the slots in use. -/
def checkAndSendPass (threshold : UInt64)
    (trigger : σ → List (SchedulerSlot ι) → ℕ → Option (σ × SchedulerSlot ι)) (st : σ)
    (slots : List (SchedulerSlot ι)) : Option (SendPass σ ι) :=
  checkAndSendFrom threshold trigger slots.length 0 st slots

section

variable {threshold : UInt64} {slots sorted : List (SchedulerSlot ι)}

/-- In sorted slots nothing is due behind a slot that is not. -/
theorem not_dueAt_of_ascending (h : Ascending SchedulerSlot.deadline sorted) {i j : ℕ}
    (hij : i ≤ j) (hj : j < sorted.length) (hi : ¬ DueAt threshold sorted i) :
    ¬ DueAt threshold sorted j := by
  have hle : sorted[i].deadline ≤ sorted[j].deadline := by
    rcases Nat.lt_or_eq_of_le hij with hlt | rfl
    · exact List.pairwise_iff_getElem.1 h i j (by omega) hj hlt
    · exact Nat.le_refl _
  rw [DueAt, List.getD_eq_getElem _ _ (by omega), ge_iff_le, UInt64.le_iff_toNat_le] at hi
  rw [DueAt, List.getD_eq_getElem _ _ hj, ge_iff_le, UInt64.le_iff_toNat_le]
  exact fun hdue ↦ hi (Nat.le_trans hle hdue)

/-- The loop hands over what is due from its position on, as long as those slots are still as the
sort has left them. -/
theorem checkAndSendFrom_sent (h : Ascending SchedulerSlot.deadline sorted)
    (trigger : σ → List (SchedulerSlot ι) → ℕ → σ × SchedulerSlot ι) {left i : ℕ}
    (hleft : i + left = sorted.length) (st : σ)
    (hslots : ∀ j, i ≤ j → slots[j]? = sorted[j]?) :
    ∃ pass,
      checkAndSendFrom threshold (fun st slots i ↦ some (trigger st slots i)) left i st slots =
        some pass ∧
      pass.sent = (List.range' i left).filter fun j ↦ DueAt threshold sorted j := by
  induction left generalizing i st slots with
  | zero => exact ⟨_, rfl, rfl⟩
  | succ left ih =>
    have hhead : DueAt threshold slots i ↔ DueAt threshold sorted i := by
      rw [DueAt, DueAt, List.getD_eq_getElem?_getD, List.getD_eq_getElem?_getD,
        hslots i (Nat.le_refl i)]
    rw [checkAndSendFrom]
    by_cases hdue : DueAt threshold sorted i
    · have hset : ∀ j, i + 1 ≤ j → (slots.set i (trigger st slots i).2)[j]? = sorted[j]? := by
        intro j hj
        rw [List.getElem?_set_ne (by omega), hslots j (by omega)]
      obtain ⟨pass, hpass, hsent⟩ := ih (by omega) (trigger st slots i).1 hset
      refine ⟨_, by rw [if_pos (hhead.2 hdue), Option.bind_some, hpass, Option.map_some], ?_⟩
      rw [List.range'_succ, List.filter_cons_of_pos (by simpa using hdue), hsent]
    · refine ⟨_, if_neg (mt hhead.1 hdue), ?_⟩
      -- the early exit: nothing behind it is due either
      rw [eq_comm, List.filter_eq_nil_iff]
      intro j hj
      obtain ⟨hij, hlt⟩ := List.mem_range'_1.1 hj
      simpa using not_dueAt_of_ascending h hij (by omega) hdue

theorem checkAndSendPass_sent (h : Ascending SchedulerSlot.deadline sorted)
    (trigger : σ → List (SchedulerSlot ι) → ℕ → σ × SchedulerSlot ι) (st : σ) :
    ∃ pass, checkAndSendPass threshold (fun st slots i ↦ some (trigger st slots i)) st sorted =
        some pass ∧
      pass.sent = (List.range sorted.length).filter fun i ↦ DueAt threshold sorted i := by
  rw [List.range_eq_range']
  exact checkAndSendFrom_sent h trigger (by omega) st fun _ _ ↦ rfl

end

/-! ## Both passes -/

/-- A reorder pass, and a send pass directly after it: the first leaves the slots sorted, and those
with equal deadlines in the order in which they were; the second hands over exactly the slots that
are due, each once and in that order. -/
def DispatchesInOrder (threshold : UInt64)
    (trigger : σ → List (SchedulerSlot ι) → ℕ → σ × SchedulerSlot ι) (st : σ)
    (slots : List (SchedulerSlot ι)) : Prop :=
  ∃ sorted pass, reorderThreadPass slots = some sorted ∧
    checkAndSendPass threshold (fun st slots i ↦ some (trigger st slots i)) st sorted = some pass ∧
    Sorted SchedulerSlot.deadline slots sorted ∧
    pass.sent = (List.range sorted.length).filter fun i ↦ DueAt threshold sorted i

theorem dispatchesInOrder_of_fit (threshold : UInt64)
    (trigger : σ → List (SchedulerSlot ι) → ℕ → σ × SchedulerSlot ι) (st : σ)
    {slots : List (SchedulerSlot ι)} (h : SearchesFit slots) :
    DispatchesInOrder threshold trigger st slots := by
  have hsorted := reorderPass_sorted slots
  obtain ⟨pass, hpass, hsent⟩ := checkAndSendPass_sent hsorted.ascending trigger st
  exact ⟨_, pass, reorderThreadPass_eq_some h, hpass, hsorted, hsent⟩

theorem not_dispatchesInOrder (threshold : UInt64)
    (trigger : σ → List (SchedulerSlot ι) → ℕ → σ × SchedulerSlot ι) (st : σ)
    {slots : List (SchedulerSlot ι)} (h : ¬ SearchesFit slots) :
    ¬ DispatchesInOrder threshold trigger st slots := by
  rintro ⟨sorted, -, hsome, -⟩
  rw [reorderThreadPass_eq_none h] at hsome
  exact absurd hsome (by simp)

/-- **The slots are dispatched in the order of their deadlines exactly when the searches fit.**  For
every table, every threshold and every `trigger_send` that changes only the slot it is given. -/
theorem deadlineDispatch_iff (threshold : UInt64)
    (trigger : σ → List (SchedulerSlot ι) → ℕ → σ × SchedulerSlot ι) (st : σ)
    (slots : List (SchedulerSlot ι)) :
    DispatchesInOrder threshold trigger st slots ↔ SearchesFit slots :=
  ⟨not_imp_not.1 (not_dispatchesInOrder threshold trigger st),
    dispatchesInOrder_of_fit threshold trigger st⟩

/-- In `2 ^ 31 - 1` empty slots the last search ends behind all the others, and the sums that lead
there are no `int`s. -/
theorem not_searchesFit_replicate :
    ¬ SearchesFit (List.replicate (2 ^ 31 - 1) (SchedulerSlot.zero (ι := ι))) := by
  intro h
  have hlast := h (2 ^ 31 - 2) .zero (by rw [List.getElem?_replicate, if_pos (by omega)])
  have hrank : rank ((List.replicate (2 ^ 31 - 1) (SchedulerSlot.zero (ι := ι))).take (2 ^ 31 - 2))
      .zero = 2 ^ 31 - 2 := by
    rw [List.take_replicate, rank, List.countP_replicate, if_pos (by simp)]
    exact Nat.min_eq_left (by omega)
  rw [hrank] at hlast
  have hlt := hlast.lt (by omega) (Nat.le_refl _) (Nat.le_refl _)
  rw [intLimit] at hlt
  omega

theorem deadlineDispatch_fails : ¬ DispatchesInOrder (ι := Unit) 0
    (fun (st : Unit) _ _ ↦ (st, .zero)) () (List.replicate (2 ^ 31 - 1) .zero) :=
  not_dispatchesInOrder _ _ _ not_searchesFit_replicate

end

end DmmrOrbit
