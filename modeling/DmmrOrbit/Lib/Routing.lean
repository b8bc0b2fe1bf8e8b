import Mathlib.Algebra.BigOperators.Group.Finset.Basic
import Mathlib.Algebra.Order.BigOperators.Group.Finset
import Mathlib.Algebra.Order.Group.Multiset
import Mathlib.Data.Fintype.Basic

/-!
# A stream that several readers divide among them

Each reader of a stream picks what is meant for it, `p i` for the reader `i`, of a part of the
stream.  If nothing is meant for two of them, then together they have picked no element more often
than it is in the stream (`sum_pick_le`), and if everything is meant for one of them and all have
read to the end, they have picked each element as often (`sum_pick_eq`).

What the readers have together is a sum over all of them; `sum_update` is what becomes of it when
one of them takes a step.
-/

set_option autoImplicit false

namespace Routing

universe u v

section

variable {ι δ M : Type*} [Fintype ι] [DecidableEq ι] [AddCommMonoid M]

/-- One of them changes what it has. -/
theorem sum_update (f : ι → δ) (g : δ → M) (i : ι) (d : δ) :
    ∑ j, g (Function.update f i d j) + g (f i) = ∑ j, g (f j) + g d := by
  have hother : ∑ j ∈ Finset.univ.erase i, g (Function.update f i d j) =
      ∑ j ∈ Finset.univ.erase i, g (f j) := by
    refine Finset.sum_congr rfl fun j hj ↦ ?_
    rw [Function.update_of_ne (Finset.ne_of_mem_erase hj)]
  rw [← Finset.add_sum_erase _ _ (Finset.mem_univ i),
    ← Finset.add_sum_erase _ (fun j ↦ g (f j)) (Finset.mem_univ i), hother, Function.update_self,
    add_assoc, add_comm (g d), add_comm (Finset.sum _ _)]

end

variable {α : Type u} {ι : Type v} [Fintype ι] {p : ι → α → Prop} [∀ i, DecidablePred (p i)]

/-- Nothing is meant for two readers. -/
def Exclusive (p : ι → α → Prop) (l : List α) : Prop := ∀ a ∈ l, ∀ i j, p i a → p j a → i = j

/-- What the readers pick of one element: it is picked once, or not at all. -/
theorem sum_pick_one (a : α) (h : ∀ i j, p i a → p j a → i = j) :
    ∑ i, (if p i a then {a} else 0 : Multiset α) = if ∃ i, p i a then {a} else 0 := by
  split
  · next hex =>
    obtain ⟨i, hi⟩ := hex
    rw [Finset.sum_eq_single i (fun j _ hne ↦ if_neg fun hj ↦ hne (h j i hj hi))
      (fun hmem ↦ absurd (Finset.mem_univ i) hmem), if_pos hi]
  · next hnone => exact Finset.sum_eq_zero fun i _ ↦ if_neg fun hi ↦ hnone ⟨i, hi⟩

/-- Picked by the readers is what is meant for one of them. -/
theorem sum_filter_eq {l : List α} (h : Exclusive p l) :
    ∑ i, (l.filter (p i) : Multiset α) = (l.filter fun a ↦ ∃ i, p i a : List α) := by
  induction l with
  | nil => simp
  | cons a l ih =>
    have hcons (q : α → Prop) [DecidablePred q] : ((a :: l).filter (q ·) : Multiset α) =
        (if q a then {a} else 0) + (l.filter (q ·) : Multiset α) := by
      by_cases hq : q a <;> simp [hq]
    rw [Finset.sum_congr rfl fun i _ ↦ hcons (p i), Finset.sum_add_distrib,
      sum_pick_one a (h a (.head l)), ih fun b hb ↦ h b (.tail a hb), hcons]

/-- **No element is picked twice**, whatever part of the stream each reader has read. -/
theorem sum_pick_le {l : List α} (h : Exclusive p l) (part : ι → List α)
    (hpart : ∀ i, (part i).Sublist l) :
    ∑ i, ((part i).filter (p i) : Multiset α) ≤ (l : Multiset α) := by
  have hle : ∑ i, ((part i).filter (p i) : Multiset α) ≤ ∑ i, (l.filter (p i) : Multiset α) :=
    Finset.sum_le_sum fun i _ ↦ Multiset.coe_le.2 ((hpart i).filter _).subperm
  refine hle.trans ?_
  rw [sum_filter_eq h]
  exact Multiset.coe_le.2 List.filter_sublist.subperm

/-- **Each element is picked once** when all of the stream has been read. -/
theorem sum_pick_eq {l : List α} (h : Exclusive p l) (hsome : ∀ a ∈ l, ∃ i, p i a) :
    ∑ i, (l.filter (p i) : Multiset α) = (l : Multiset α) := by
  rw [sum_filter_eq h, List.filter_eq_self.2 fun a ha ↦ decide_eq_true (hsome a ha)]

end Routing
