import Mathlib.Data.List.Nodup
import Mathlib.Logic.Function.Basic

/-!
# Circular queues

The `CIRCLEQ` of `<sys/queue.h>`: a doubly linked list through its elements, closed by a head that
the last element points on to and the first one back to.  A pointer of the queue is a `Link`, to an
element or to the head; `init` and `insertTail` are the macros of these names, assignment by
assignment, and whatever the links held before is kept where no assignment reaches.

`Holds q l` says that the queue `q` consists of the elements of the list `l` in this order.  An
initialised queue holds no element, and `insertTail` appends one (`holds_init`,
`Holds.insertTail`).
-/

set_option autoImplicit false

universe u

namespace CircleQueue

/-- A pointer of the queue. -/
inductive Link (α : Type u)
  | elm (a : α)
  | head
  deriving DecidableEq, Repr

/-- A link to an element, or to the head where there is none. -/
def Link.of {α : Type u} : Option α → Link α
  | some a => .elm a
  | none => .head

/-- The head with its two links, and the links of the elements. -/
structure Queue (α : Type u) where
  first : Link α
  last : Link α
  next : α → Link α
  prev : α → Link α

variable {α : Type u}

/-- `CIRCLEQ_INIT`. -/
def init (q : Queue α) : Queue α := { q with first := .head, last := .head }

/-- `CIRCLEQ_INSERT_TAIL`. -/
def insertTail [DecidableEq α] (q : Queue α) (a : α) : Queue α :=
  let q := { q with
    next := Function.update q.next a .head
    prev := Function.update q.prev a q.last }
  let q := match q.first, q.last with
    | .head, _ => { q with first := .elm a }
    | .elm _, .elm b => { q with next := Function.update q.next b (.elm a) }
    | .elm _, .head => q
  { q with last := .elm a }

/-- `CIRCLEQ_EMPTY`. -/
def isEmpty (q : Queue α) : Bool :=
  match q.first with
  | .head => true
  | .elm _ => false

/-- The queue consists of the elements of `l`. -/
structure Holds (q : Queue α) (l : List α) : Prop where
  nodup : l.Nodup
  first : q.first = .of l.head?
  last : q.last = .of l.getLast?
  next : ∀ i (h : i < l.length), q.next l[i] = .of l[i + 1]?
  prev : ∀ i (h : i < l.length), q.prev l[i] = if i = 0 then .head else .of l[i - 1]?

theorem holds_init (q : Queue α) : Holds (init q) [] :=
  ⟨List.nodup_nil, rfl, rfl, nofun, nofun⟩

variable [DecidableEq α]

theorem Holds.insertTail_nil {q : Queue α} (h : Holds q []) (a : α) :
    Holds (insertTail q a) [a] := by
  have hfirst : q.first = .head := h.first
  have hq : insertTail q a = ⟨.elm a, .elm a, Function.update q.next a .head,
      Function.update q.prev a q.last⟩ := by
    rw [insertTail, hfirst]
  rw [hq]
  refine ⟨List.nodup_singleton a, rfl, rfl, ?_, ?_⟩
  · rintro (_ | i) hi
    · simp [Link.of]
    · simp at hi
  · rintro (_ | i) hi
    · simpa [Link.of] using h.last
    · simp at hi

theorem Holds.insertTail_concat {q : Queue α} {l : List α} {b : α} (h : Holds q (l ++ [b]))
    {a : α} (ha : a ∉ l ++ [b]) : Holds (insertTail q a) (l ++ [b] ++ [a]) := by
  have hlast : q.last = .elm b := by rw [h.last]; simp [Link.of]
  obtain ⟨c, hc⟩ : ∃ c, (l ++ [b]).head? = some c := ⟨_, List.head?_eq_some_head (by simp)⟩
  have hfirst : q.first = .elm c := by rw [h.first, hc]; rfl
  have hq : insertTail q a = ⟨.elm c, .elm a,
      Function.update (Function.update q.next a .head) b (.elm a),
      Function.update q.prev a (.elm b)⟩ := by
    rw [insertTail]
    dsimp only
    rw [hfirst, hlast]
  have hba : a ≠ b := fun hab ↦ ha (by simp [hab])
  rw [hq]
  refine ⟨List.nodup_append.2 ⟨h.nodup, by simp, ?_⟩, ?_, by simp [Link.of], ?_, ?_⟩
  · rintro x hx y hy rfl
    rw [List.mem_singleton] at hy
    exact ha (hy ▸ hx)
  · rw [List.head?_append, hc]; rfl
  · intro i hi
    rcases Nat.lt_or_ge i (l ++ [b]).length with hlt | hge
    · have hget : (l ++ [b] ++ [a])[i] = (l ++ [b])[i] := List.getElem_append_left hlt
      have hne : (l ++ [b])[i] ≠ a := fun heq ↦ ha (heq ▸ List.getElem_mem hlt)
      rw [hget]
      by_cases hib : i = l.length
      · -- the element that was last now points to the new one
        subst hib
        simp [Link.of]
      · have hib' : (l ++ [b])[i] ≠ b := fun heq ↦ hib <| by
          have hlength : l.length < (l ++ [b]).length := by simp
          have hbl : (l ++ [b])[l.length] = b := by simp
          exact (h.nodup.getElem_inj_iff).1 (heq.trans hbl.symm)
        have hnext : (l ++ [b] ++ [a])[i + 1]? = (l ++ [b])[i + 1]? :=
          List.getElem?_append_left (by simp at hlt ⊢; omega)
        dsimp only
        rw [Function.update_of_ne hib', Function.update_of_ne hne, h.next i hlt, hnext]
    · have hia : i = (l ++ [b]).length := by simp at hi hge ⊢; omega
      subst hia
      simp [Function.update_of_ne hba, Link.of]
  · intro i hi
    rcases Nat.lt_or_ge i (l ++ [b]).length with hlt | hge
    · have hget : (l ++ [b] ++ [a])[i] = (l ++ [b])[i] := List.getElem_append_left hlt
      have hne : (l ++ [b])[i] ≠ a := fun heq ↦ ha (heq ▸ List.getElem_mem hlt)
      have hprev : (l ++ [b] ++ [a])[i - 1]? = (l ++ [b])[i - 1]? :=
        List.getElem?_append_left (by omega)
      rw [hget]
      dsimp only
      rw [Function.update_of_ne hne, h.prev i hlt, hprev]
    · have hia : i = (l ++ [b]).length := by simp at hi hge ⊢; omega
      subst hia
      simp [Link.of]

/-- `CIRCLEQ_INSERT_TAIL` appends an element. -/
theorem Holds.insertTail {q : Queue α} {l : List α} (h : Holds q l) {a : α} (ha : a ∉ l) :
    Holds (insertTail q a) (l ++ [a]) := by
  rcases List.eq_nil_or_concat l with rfl | ⟨l, b, rfl⟩
  · exact h.insertTail_nil a
  · rw [List.concat_eq_append] at h ha ⊢
    exact h.insertTail_concat ha

end CircleQueue
