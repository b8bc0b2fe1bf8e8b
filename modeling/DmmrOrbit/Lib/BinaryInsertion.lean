import Mathlib.Data.List.Perm.Basic
import Mathlib.Data.List.Induction
import Mathlib.Data.List.TakeWhile
import Mathlib.Order.Lattice

/-!
# Insertion by binary search

A list is sorted by a key, one element after the other: the place of the next one is found by
halving, and it goes behind all elements whose key is not larger.  So elements with equal keys keep
their order.

`bisect p` is the halving.  If `p` holds exactly below `r` then `r` is what it finds (`bisect_eq`).
`bisectBelow limit p` is the same in an arithmetic that ends at `limit`: the sum of the two indices
of a step must stay below.  Which sums there are depends on `r` alone, and `SumsBelow` says that all
of them do.

`insertBehind` is the insertion itself, and `sortBehind` the sort.  Its result is the list, sorted,
with the elements of each key as the list had them (`sorted_sortBehind`).
-/

set_option autoImplicit false

namespace BinaryInsertion

universe u v

/-! ## Halving -/

/-- The first index from `lo` on, and below `hi`, at which `p` fails; `fuel` steps are enough for an
interval of that length. -/
def bisect (p : ℕ → Bool) : ℕ → ℕ → ℕ → ℕ
  | 0, lo, _ => lo
  | fuel + 1, lo, hi =>
    if lo < hi then
      let mid := (lo + (hi - 1)) / 2
      if p mid then bisect p fuel (mid + 1) hi else bisect p fuel lo mid
    else lo

/-- The same, as long as the sum of the two indices is below `limit`. -/
def bisectBelow (limit : ℕ) (p : ℕ → Bool) : ℕ → ℕ → ℕ → Option ℕ
  | 0, lo, _ => some lo
  | fuel + 1, lo, hi =>
    if lo < hi then
      if lo + (hi - 1) < limit then
        let mid := (lo + (hi - 1)) / 2
        if p mid then bisectBelow limit p fuel (mid + 1) hi else bisectBelow limit p fuel lo mid
      else none
    else some lo

/-- The sums of the search for `r`. -/
def SumsBelow (limit r : ℕ) : ℕ → ℕ → ℕ → Prop
  | 0, _, _ => True
  | fuel + 1, lo, hi => lo < hi →
    lo + (hi - 1) < limit ∧
      if (lo + (hi - 1)) / 2 < r then SumsBelow limit r fuel ((lo + (hi - 1)) / 2 + 1) hi
      else SumsBelow limit r fuel lo ((lo + (hi - 1)) / 2)

/-- Below `r`, and only there, `p` holds. -/
def Splits (p : ℕ → Bool) (r lo hi : ℕ) : Prop := ∀ i, lo ≤ i → i < hi → (p i = true ↔ i < r)

section

variable {p : ℕ → Bool} {r limit fuel lo hi : ℕ}

theorem bisect_eq (h : Splits p r lo hi) (hlo : lo ≤ r) (hhi : r ≤ hi) (hfuel : hi - lo ≤ fuel) :
    bisect p fuel lo hi = r := by
  induction fuel generalizing lo hi with
  | zero => rw [bisect]; omega
  | succ fuel ih =>
    rw [bisect]
    split
    · next hlt =>
      have hmid : p ((lo + (hi - 1)) / 2) = true ↔ (lo + (hi - 1)) / 2 < r :=
        h _ (by omega) (by omega)
      dsimp only
      split
      · next hp =>
        have hr := hmid.1 hp
        exact ih (fun i hi hi' ↦ h i (by omega) hi') (by omega) hhi (by omega)
      · next hp =>
        have hr := mt hmid.2 hp
        exact ih (fun i hi hi' ↦ h i hi (by omega)) hlo (by omega) (by omega)
    · omega

/-- While the sums stay below the limit it makes no difference. -/
theorem bisectBelow_eq_some (h : Splits p r lo hi) (hlo : lo ≤ r) (hhi : r ≤ hi)
    (hfuel : hi - lo ≤ fuel) (hsums : SumsBelow limit r fuel lo hi) :
    bisectBelow limit p fuel lo hi = some r := by
  induction fuel generalizing lo hi with
  | zero => rw [bisectBelow]; congr 1; omega
  | succ fuel ih =>
    rw [bisectBelow]
    split
    · next hlt =>
      have hmid : p ((lo + (hi - 1)) / 2) = true ↔ (lo + (hi - 1)) / 2 < r :=
        h _ (by omega) (by omega)
      obtain ⟨hsum, hrest⟩ := hsums hlt
      rw [if_pos hsum]
      dsimp only
      split
      · next hp =>
        have hr := hmid.1 hp
        rw [if_pos hr] at hrest
        exact ih (fun i hi hi' ↦ h i (by omega) hi') (by omega) hhi (by omega) hrest
      · next hp =>
        have hr := mt hmid.2 hp
        rw [if_neg hr] at hrest
        exact ih (fun i hi hi' ↦ h i hi (by omega)) hlo (by omega) (by omega) hrest
    · congr 1; omega

/-- A sum that does not ends the search. -/
theorem bisectBelow_eq_none (h : Splits p r lo hi) (hsums : ¬ SumsBelow limit r fuel lo hi) :
    bisectBelow limit p fuel lo hi = none := by
  induction fuel generalizing lo hi with
  | zero => exact absurd trivial hsums
  | succ fuel ih =>
    rw [SumsBelow, Classical.not_imp] at hsums
    obtain ⟨hlt, hsums⟩ := hsums
    have hmid : p ((lo + (hi - 1)) / 2) = true ↔ (lo + (hi - 1)) / 2 < r :=
      h _ (by omega) (by omega)
    rw [bisectBelow, if_pos hlt]
    split
    · next hsum =>
      dsimp only
      split
      · next hp =>
        rw [if_pos (hmid.1 hp)] at hsums
        exact ih (fun i hi hi' ↦ h i (by omega) hi') fun hrest ↦ hsums ⟨hsum, hrest⟩
      · next hp =>
        rw [if_neg (mt hmid.2 hp)] at hsums
        exact ih (fun i hi hi' ↦ h i hi (by omega)) fun hrest ↦ hsums ⟨hsum, hrest⟩
    · rfl

/-- In a short interval all sums are small. -/
theorem sumsBelow_of_le (hhi : 2 * hi ≤ limit + 1) (r : ℕ) : SumsBelow limit r fuel lo hi := by
  induction fuel generalizing lo hi with
  | zero => trivial
  | succ fuel ih =>
    intro hlt
    refine ⟨by omega, ?_⟩
    split
    · exact ih hhi
    · exact ih (by omega)

/-- The last index before `r` is one of those looked at, and twice that index is at most the sum it
came from. -/
theorem SumsBelow.lt (h : SumsBelow limit r fuel lo hi) (hlo : lo < r) (hhi : r ≤ hi)
    (hfuel : hi - lo ≤ fuel) : 2 * (r - 1) < limit := by
  induction fuel generalizing lo hi with
  | zero => omega
  | succ fuel ih =>
    obtain ⟨hsum, hrest⟩ := h (by omega)
    split at hrest
    · next hr =>
      by_cases hlast : (lo + (hi - 1)) / 2 + 1 = r
      · omega
      · exact ih hrest (by omega) hhi (by omega)
    · next hr => exact ih hrest hlo (by omega) (by omega)

end

/-! ## Insertion -/

section

variable {α : Type u} {κ : Type v} [LinearOrder κ] (f : α → κ)

/-- The element goes behind those whose key is not larger. -/
def insertBehind (l : List α) (a : α) : List α :=
  l.takeWhile (fun x ↦ f x ≤ f a) ++ a :: l.dropWhile (fun x ↦ f x ≤ f a)

/-- Every element is inserted in its turn. -/
def sortBehind (l : List α) : List α := l.foldl (insertBehind f) []

/-- The keys do not go down. -/
def Ascending (l : List α) : Prop := l.Pairwise fun x y ↦ f x ≤ f y

variable {f} {l : List α} {k : κ}

/-- In a sorted list those up to a key come first. -/
theorem Ascending.takeWhile_eq (h : Ascending f l) (k : κ) :
    l.takeWhile (fun x ↦ f x ≤ k) = l.filter (fun x ↦ f x ≤ k) := by
  induction l with
  | nil => rfl
  | cons x l ih =>
    obtain ⟨hx, hl⟩ := List.pairwise_cons.1 h
    by_cases hk : f x ≤ k
    · rw [List.takeWhile_cons_of_pos (by simpa using hk),
        List.filter_cons_of_pos (by simpa using hk), ih hl]
    · have hnone : l.filter (fun x ↦ f x ≤ k) = [] := by
        rw [List.filter_eq_nil_iff]
        intro y hy
        simpa using lt_of_lt_of_le (not_le.1 hk) (hx y hy)
      rw [List.takeWhile_cons_of_neg (by simpa using hk),
        List.filter_cons_of_neg (by simpa using hk), hnone]

theorem Ascending.length_takeWhile (h : Ascending f l) (k : κ) :
    (l.takeWhile fun x ↦ f x ≤ k).length = l.countP fun x ↦ f x ≤ k := by
  rw [h.takeWhile_eq, List.countP_eq_length_filter]

/-- Behind them the keys are larger. -/
theorem Ascending.lt_of_mem_dropWhile (h : Ascending f l) {x : α}
    (hx : x ∈ l.dropWhile fun x ↦ f x ≤ k) : k < f x := by
  induction l with
  | nil => exact absurd hx (by simp)
  | cons y l ih =>
    obtain ⟨hy, hl⟩ := List.pairwise_cons.1 h
    by_cases hk : f y ≤ k
    · rw [List.dropWhile_cons_of_pos (by simpa using hk)] at hx
      exact ih hl hx
    · rw [List.dropWhile_cons_of_neg (by simpa using hk)] at hx
      rcases List.mem_cons.1 hx with rfl | hmem
      · exact not_le.1 hk
      · exact lt_of_lt_of_le (not_le.1 hk) (hy x hmem)

/-- So a search in a sorted list finds how many there are. -/
theorem Ascending.splits (h : Ascending f l) (k : κ) {p : ℕ → Bool}
    (hp : ∀ i, (hi : i < l.length) → (p i = true ↔ f l[i] ≤ k)) :
    Splits p (l.countP fun x ↦ f x ≤ k) 0 l.length := by
  intro i _ hi
  rw [hp i hi, ← h.length_takeWhile]
  have hget : (l.takeWhile (fun x ↦ f x ≤ k) ++ l.dropWhile fun x ↦ f x ≤ k)[i]? = some l[i] := by
    rw [List.takeWhile_append_dropWhile, List.getElem?_eq_getElem hi]
  constructor
  · intro hle
    by_contra hge
    have hmem : l[i] ∈ l.dropWhile fun x ↦ f x ≤ k := by
      rw [List.getElem?_append_right (by omega)] at hget
      exact List.mem_of_getElem? hget
    exact absurd hle (not_le.2 (h.lt_of_mem_dropWhile hmem))
  · intro hlt
    have hmem : l[i] ∈ l.takeWhile fun x ↦ f x ≤ k := by
      rw [List.getElem?_append_left hlt] at hget
      exact List.mem_of_getElem? hget
    simpa using List.mem_takeWhile_imp hmem

/-- Cutting the list there and putting the element in between is the insertion. -/
theorem Ascending.insertBehind_eq (h : Ascending f l) (a : α) {r : ℕ}
    (hr : r = l.countP fun x ↦ f x ≤ f a) : insertBehind f l a = l.take r ++ a :: l.drop r := by
  have htake : l.take r = l.takeWhile fun x ↦ f x ≤ f a := by
    rw [hr, ← h.length_takeWhile]
    exact (List.prefix_iff_eq_take.1 (List.takeWhile_prefix _)).symm
  have hdrop : l.drop r = l.dropWhile fun x ↦ f x ≤ f a := by
    have happ := (List.take_append_drop r l).trans
      (List.takeWhile_append_dropWhile (p := fun x ↦ decide (f x ≤ f a)) (l := l)).symm
    rw [htake] at happ
    exact List.append_cancel_left happ
  rw [insertBehind, htake, hdrop]

theorem insertBehind_perm (f : α → κ) (l : List α) (a : α) :
    (insertBehind f l a).Perm (a :: l) := by
  rw [insertBehind]
  refine List.perm_middle.trans ?_
  rw [List.takeWhile_append_dropWhile]

theorem Ascending.insertBehind (h : Ascending f l) (a : α) : Ascending f (insertBehind f l a) := by
  have htake : ∀ x ∈ l.takeWhile (fun x ↦ f x ≤ f a), f x ≤ f a := fun x hx ↦ by
    simpa using List.mem_takeWhile_imp hx
  have hdrop : ∀ x ∈ l.dropWhile (fun x ↦ f x ≤ f a), f a ≤ f x := fun x hx ↦
    (h.lt_of_mem_dropWhile hx).le
  rw [BinaryInsertion.insertBehind, Ascending, List.pairwise_append, List.pairwise_cons]
  refine ⟨h.sublist (List.takeWhile_sublist _),
    ⟨hdrop, h.sublist (List.dropWhile_sublist _)⟩, fun x hx y hy ↦ ?_⟩
  rcases List.mem_cons.1 hy with rfl | hy
  · exact htake x hx
  · exact (htake x hx).trans (hdrop y hy)

/-- Among those of its key the element is the last. -/
theorem Ascending.filter_insertBehind (h : Ascending f l) (a : α) (k : κ) :
    (BinaryInsertion.insertBehind f l a).filter (fun x ↦ f x = k) =
      (l ++ [a]).filter fun x ↦ f x = k := by
  have happ : (l.takeWhile (fun x ↦ f x ≤ f a)).filter (fun x ↦ f x = k) ++
      (l.dropWhile (fun x ↦ f x ≤ f a)).filter (fun x ↦ f x = k) = l.filter fun x ↦ f x = k := by
    rw [← List.filter_append, List.takeWhile_append_dropWhile]
  rw [BinaryInsertion.insertBehind, List.filter_append, List.filter_append, ← happ]
  by_cases hk : f a = k
  · have hnone : (l.dropWhile (fun x ↦ f x ≤ f a)).filter (fun x ↦ f x = k) = [] := by
      rw [List.filter_eq_nil_iff]
      intro x hx
      simpa [← hk] using (h.lt_of_mem_dropWhile hx).ne'
    rw [List.filter_cons_of_pos (by simpa using hk), hnone, List.append_nil,
      List.filter_cons_of_pos (by simpa using hk), List.filter_nil]
  · rw [List.filter_cons_of_neg (by simpa using hk), List.filter_cons_of_neg (by simpa using hk),
      List.filter_nil, List.append_nil]

/-- What stands from a larger key on stays there. -/
theorem insertBehind_append_of_lt {a y : α} (h : f a < f y) (l m : List α) :
    insertBehind f (l ++ y :: m) a = insertBehind f l a ++ y :: m := by
  induction l with
  | nil => simp [insertBehind, not_le.2 h]
  | cons x l ih =>
    rw [insertBehind, insertBehind] at ih ⊢
    by_cases hx : f x ≤ f a
    · simpa [hx] using ih
    · simp [hx]

/-! ## The sort -/

/-- The elements inserted so far: sorted, a permutation, and in order within each key. -/
structure Sorted (f : α → κ) (l sorted : List α) : Prop where
  perm : sorted.Perm l
  ascending : Ascending f sorted
  stable : ∀ k, sorted.filter (fun x ↦ f x = k) = l.filter fun x ↦ f x = k

theorem Sorted.nil (f : α → κ) : Sorted f [] [] := ⟨.refl _, List.Pairwise.nil, fun _ ↦ rfl⟩

theorem Sorted.insertBehind {sorted : List α} (h : Sorted f l sorted) (a : α) :
    Sorted f (l ++ [a]) (insertBehind f sorted a) where
  perm := (insertBehind_perm f sorted a).trans <|
    (h.perm.cons a).trans (List.perm_append_singleton a l).symm
  ascending := h.ascending.insertBehind a
  stable k := by
    rw [h.ascending.filter_insertBehind, List.filter_append, h.stable, ← List.filter_append]

theorem sortBehind_concat (f : α → κ) (l : List α) (a : α) :
    sortBehind f (l ++ [a]) = insertBehind f (sortBehind f l) a := by
  rw [sortBehind, List.foldl_append]
  rfl

theorem sorted_sortBehind (f : α → κ) (l : List α) : Sorted f l (sortBehind f l) := by
  induction l using List.reverseRecOn with
  | nil => exact .nil f
  | append_singleton l a ih =>
    rw [sortBehind_concat]
    exact ih.insertBehind a

/-- Where an element comes to: behind those before it that are not larger, and those after it that
are smaller. -/
theorem exists_sortBehind_eq (f : α → κ) (l : List α) (c : α) (m : List α) :
    ∃ front back, sortBehind f (l ++ c :: m) = front ++ c :: back ∧
      front.length = (l.countP fun x ↦ f x ≤ f c) + m.countP fun x ↦ f x < f c := by
  induction m using List.reverseRecOn with
  | nil =>
    have hsorted := sorted_sortBehind f l
    refine ⟨_, _, sortBehind_concat f l c, ?_⟩
    rw [hsorted.ascending.length_takeWhile, hsorted.perm.countP_eq, List.countP_nil, Nat.add_zero]
  | append_singleton m x ih =>
    obtain ⟨front, back, hsort, hlen⟩ := ih
    have hasc : Ascending f (front ++ c :: back) := hsort ▸ (sorted_sortBehind f _).ascending
    have hlist : l ++ c :: (m ++ [x]) = (l ++ c :: m) ++ [x] := by
      rw [List.append_assoc, List.cons_append]
    rw [hlist, sortBehind_concat, hsort, List.countP_append, List.countP_singleton]
    by_cases hx : f x < f c
    · refine ⟨insertBehind f front x, back, insertBehind_append_of_lt hx front back, ?_⟩
      rw [(insertBehind_perm f front x).length_eq, List.length_cons, hlen,
        if_pos (by simpa using hx), Nat.add_assoc]
    · have hall : ∀ y ∈ front, decide (f y ≤ f x) = true := fun y hy ↦ by
        have hyc := (List.pairwise_append.1 hasc).2.2 y hy c List.mem_cons_self
        simpa using hyc.trans (not_lt.1 hx)
      refine ⟨front, insertBehind f back x, ?_, ?_⟩
      · rw [insertBehind, insertBehind, List.takeWhile_append_of_pos hall,
          List.dropWhile_append_of_pos hall, List.append_assoc]
        simp [not_lt.1 hx]
      · rw [hlen, if_neg (by simpa using hx), Nat.add_zero]

/-! ## Insertion from the end -/

/-- Behind elements whose keys are not larger comes the end. -/
theorem Ascending.insertBehind_concat_of_le {a y : α} (h : Ascending f (l ++ [y]))
    (hle : f y ≤ f a) : BinaryInsertion.insertBehind f (l ++ [y]) a = l ++ [y] ++ [a] := by
  have hall : ∀ x ∈ l ++ [y], decide (f x ≤ f a) = true := by
    intro x hx
    rcases List.mem_append.1 hx with hmem | hlast
    · exact decide_eq_true (((List.pairwise_append.1 h).2.2 x hmem y (.head _)).trans hle)
    · exact decide_eq_true (List.mem_singleton.1 hlast ▸ hle)
  rw [BinaryInsertion.insertBehind, List.takeWhile_eq_self_iff.2 hall,
    List.dropWhile_eq_nil_iff.2 hall]

/-! ## There is only one -/

theorem Ascending.eq_of_filter_eq {m : List α} (hl : Ascending f l) (hm : Ascending f m)
    (h : ∀ k, l.filter (fun x ↦ f x = k) = m.filter fun x ↦ f x = k) : l = m := by
  induction l generalizing m with
  | nil =>
    cases m with
    | nil => rfl
    | cons y m => exact absurd (h (f y)) (by simp)
  | cons x l ih =>
    cases m with
    | nil => exact absurd (h (f x)) (by simp)
    | cons y m =>
      obtain ⟨hx, hl'⟩ := List.pairwise_cons.1 hl
      obtain ⟨hy, hm'⟩ := List.pairwise_cons.1 hm
      -- either head has the smallest key there is
      have hle : f y ≤ f x := by
        have hmem : x ∈ (y :: m).filter fun z ↦ f z = f x := by
          rw [← h (f x)]
          simp
        rcases List.mem_cons.1 (List.mem_filter.1 hmem).1 with rfl | hxm
        · exact le_rfl
        · exact hy x hxm
      have hge : f x ≤ f y := by
        have hmem : y ∈ (x :: l).filter fun z ↦ f z = f y := by
          rw [h (f y)]
          simp
        rcases List.mem_cons.1 (List.mem_filter.1 hmem).1 with rfl | hyl
        · exact le_rfl
        · exact hx y hyl
      have hkey : f y = f x := le_antisymm hle hge
      have hhead := h (f x)
      rw [List.filter_cons_of_pos (by simp), List.filter_cons_of_pos (by simp [hkey])] at hhead
      obtain rfl := (List.cons.inj hhead).1
      congr 1
      refine ih hl' hm' fun k ↦ ?_
      by_cases hk : f x = k
      · exact hk ▸ (List.cons.inj hhead).2
      · have hrest := h k
        rwa [List.filter_cons_of_neg (by simpa using hk),
          List.filter_cons_of_neg (by simpa using hk)] at hrest

/-- **The stable sort is unique.** -/
theorem Sorted.unique {s t : List α} (hs : Sorted f l s) (ht : Sorted f l t) : s = t :=
  hs.ascending.eq_of_filter_eq ht.ascending fun k ↦ (hs.stable k).trans (ht.stable k).symm

end

end BinaryInsertion
