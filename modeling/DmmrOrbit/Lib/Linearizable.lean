import Mathlib.Data.List.Induction
import Mathlib.Data.List.Nodup
import Mathlib.Logic.Function.Basic
import DmmrOrbit.Lib.Transition

/-!
# An object behind a lock

Threads call operations on a shared object, each of which takes one lock, works on the object turn
by turn of some loop, and releases the lock.  `Body` is what an operation does under the lock, and
`Body.Implements exec` says that, left alone, it does what `exec` does in one step.

Seen from outside there is only a history of calls and returns.  It is *linearizable* if its calls
can be put into a sequence that `exec` runs through with the results that were returned, and that
never has a call before one that had returned when it was made; calls that have not returned may be
in the sequence or not.  `Inv.linearizes` is the result: whatever the interleaving, the operations
in the order in which they finish their work are such a sequence.  `Inv.exists_move` adds that the
threads never block each other for good.
-/

set_option autoImplicit false

namespace Linearizable

open Transition

variable {ι σ ω ρ κ : Type}

/-! ## Histories -/

/-- What is seen of a call from outside.  The number tells the calls apart. -/
inductive Event (ι ω ρ : Type)
  | call (id : ℕ) (thread : ι) (op : ω)
  | ret (id : ℕ) (thread : ι) (result : ρ)

namespace Event

def callId? : Event ι ω ρ → Option ℕ
  | call id _ _ => some id
  | ret _ _ _ => none

def retId? : Event ι ω ρ → Option ℕ
  | call _ _ _ => none
  | ret id _ _ => some id

end Event

/-- The calls of a history. -/
def callIds (h : List (Event ι ω ρ)) : List ℕ := h.filterMap Event.callId?

/-- The returns of a history. -/
def retIds (h : List (Event ι ω ρ)) : List ℕ := h.filterMap Event.retId?

/-- A call with its result. -/
structure Done (ι ω ρ : Type) where
  id : ℕ
  thread : ι
  op : ω
  result : ρ

/-- The call `y` had returned when the call `x` was made. -/
def Precedes (h : List (Event ι ω ρ)) (y x : ℕ) : Prop :=
  ∃ a b, h = a ++ b ∧ y ∈ retIds a ∧ x ∈ callIds b

/-- The object after some calls. -/
def after (exec : σ → ω → ρ × σ) (s : σ) (ds : List (Done ι ω ρ)) : σ :=
  ds.foldl (fun s d ↦ (exec s d.op).2) s

/-- One after the other, the calls have these results. -/
def Legal (exec : σ → ω → ρ × σ) : σ → List (Done ι ω ρ) → Prop
  | _, [] => True
  | s, d :: ds => (exec s d.op).1 = d.result ∧ Legal exec (exec s d.op).2 ds

/-- The sequence `ds` of calls explains the history. -/
structure Linearizes (exec : σ → ω → ρ × σ) (s₀ : σ) (h : List (Event ι ω ρ))
    (ds : List (Done ι ω ρ)) : Prop where
  legal : Legal exec s₀ ds
  once : (ds.map Done.id).Nodup
  called : ∀ d ∈ ds, .call d.id d.thread d.op ∈ h
  returned : ∀ id i r, .ret id i r ∈ h → ∃ d ∈ ds, d.id = id ∧ d.thread = i ∧ d.result = r
  order : ds.Pairwise fun x y ↦ ¬ Precedes h y.id x.id

section

variable {exec : σ → ω → ρ × σ} {s : σ} {h : List (Event ι ω ρ)} {ds : List (Done ι ω ρ)}

theorem after_concat (d : Done ι ω ρ) :
    after exec s (ds ++ [d]) = (exec (after exec s ds) d.op).2 := by
  rw [after, List.foldl_append]
  rfl

theorem legal_concat {d : Done ι ω ρ} :
    Legal exec s (ds ++ [d]) ↔ Legal exec s ds ∧ (exec (after exec s ds) d.op).1 = d.result := by
  induction ds generalizing s with
  | nil => simp [Legal, after]
  | cons e ds ih =>
    rw [List.cons_append, Legal, ih, Legal, and_assoc]
    rfl

theorem callIds_concat (e : Event ι ω ρ) :
    callIds (h ++ [e]) = callIds h ++ e.callId?.toList := by
  rw [callIds, List.filterMap_append]
  cases e <;> rfl

theorem retIds_concat (e : Event ι ω ρ) : retIds (h ++ [e]) = retIds h ++ e.retId?.toList := by
  rw [retIds, List.filterMap_append]
  cases e <;> rfl

theorem mem_callIds {id : ℕ} {i : ι} {op : ω} (hmem : .call id i op ∈ h) : id ∈ callIds h :=
  List.mem_filterMap.2 ⟨_, hmem, rfl⟩

theorem mem_retIds {id : ℕ} {i : ι} {r : ρ} (hmem : .ret id i r ∈ h) : id ∈ retIds h :=
  List.mem_filterMap.2 ⟨_, hmem, rfl⟩

/-- Calls of one number are one call. -/
theorem eq_of_nodup (hnodup : (callIds h).Nodup) {id : ℕ} {i j : ι} {op op' : ω}
    (hi : .call id i op ∈ h) (hj : .call id j op' ∈ h) : i = j ∧ op = op' := by
  induction h with
  | nil => exact absurd hi (by simp)
  | cons e h ih =>
    rw [callIds, List.filterMap_cons] at hnodup
    rcases List.mem_cons.1 hi with rfl | hi'
    · rcases List.mem_cons.1 hj with heq | hj'
      · cases heq
        exact ⟨rfl, rfl⟩
      · exact absurd (mem_callIds hj') (List.nodup_cons.1 hnodup).1
    · rcases List.mem_cons.1 hj with rfl | hj'
      · exact absurd (mem_callIds hi') (List.nodup_cons.1 hnodup).1
      · refine ih ?_ hi' hj'
        cases e with
        | call id i op => exact (List.nodup_cons.1 hnodup).2
        | ret id i r => exact hnodup

/-- A call that is made last is preceded by what had returned, and precedes nothing. -/
theorem precedes_concat {e : Event ι ω ρ} {x y : ℕ} (hp : Precedes (h ++ [e]) y x) :
    Precedes h y x ∨ e.callId? = some x := by
  obtain ⟨a, b, hab, hy, hx⟩ := hp
  cases b using List.reverseRecOn with
  | nil => exact absurd hx (by simp [callIds])
  | append_singleton b f =>
    rw [← List.append_assoc] at hab
    obtain ⟨rfl, hef⟩ := List.append_inj' hab rfl
    rw [callIds_concat, List.mem_append] at hx
    rcases hx with hx | hx
    · exact .inl ⟨a, b, rfl, hy, hx⟩
    · rw [← List.singleton_inj.1 hef] at hx
      exact .inr (by simpa using hx)

/-- What precedes another call has returned. -/
theorem Precedes.mem_retIds {x y : ℕ} (hp : Precedes h y x) : y ∈ retIds h := by
  obtain ⟨a, b, rfl, hy, -⟩ := hp
  rw [retIds, List.filterMap_append]
  exact List.mem_append_left _ hy

end

/-! ## The threads -/

/-- What an operation does under the lock: how it begins, and one turn of its loop, which goes on or
comes to a result. -/
structure Body (σ ω ρ κ : Type) where
  enter : σ → ω → κ
  turn : σ → κ → σ × (κ ⊕ ρ)

/-- Left alone, the loop comes to this result and leaves this object. -/
inductive Body.Computes (B : Body σ ω ρ κ) : σ → κ → ρ × σ → Prop
  | last {s t : σ} {k : κ} {r : ρ} (h : B.turn s k = (t, .inr r)) : Computes B s k (r, t)
  | next {s t : σ} {k l : κ} {out : ρ × σ} (h : B.turn s k = (t, .inl l))
      (hs : Computes B t l out) : Computes B s k out

theorem Body.Computes.of_next {B : Body σ ω ρ κ} {s t : σ} {k l : κ} {out : ρ × σ}
    (h : B.Computes s k out) (hturn : B.turn s k = (t, .inl l)) : B.Computes t l out := by
  cases h with
  | last hlast => cases hturn.symm.trans hlast
  | next hnext hs => cases hturn.symm.trans hnext; exact hs

theorem Body.Computes.of_last {B : Body σ ω ρ κ} {s t : σ} {k : κ} {r : ρ} {out : ρ × σ}
    (h : B.Computes s k out) (hturn : B.turn s k = (t, .inr r)) : out = (r, t) := by
  cases h with
  | last hlast => cases hturn.symm.trans hlast; rfl
  | next hnext hs => cases hturn.symm.trans hnext

def Body.Implements (B : Body σ ω ρ κ) (exec : σ → ω → ρ × σ) : Prop :=
  ∀ s op, B.Computes s (B.enter s op) (exec s op)

/-- Where a thread is: outside, before the lock, in the loop, with the result and still the lock,
without the lock. -/
inductive Pc (ω ρ κ : Type)
  | idle
  | waiting (id : ℕ) (op : ω)
  | inside (id : ℕ) (op : ω) (k : κ)
  | unlocking (id : ℕ) (op : ω) (result : ρ)
  | returning (id : ℕ) (op : ω) (result : ρ)

/-- The thread has the lock. -/
def Pc.Holds : Pc ω ρ κ → Prop
  | .inside _ _ _ | .unlocking _ _ _ => True
  | _ => False

structure State (ι σ ω ρ κ : Type) where
  data : σ
  lock : Option ι
  pc : ι → Pc ω ρ κ
  /-- The number of the next call. -/
  next : ℕ
  history : List (Event ι ω ρ)
  /-- The calls that have come to a result, in the order in which they did. -/
  order : List (Done ι ω ρ)

def State.start (s : σ) : State ι σ ω ρ κ := ⟨s, none, fun _ ↦ .idle, 0, [], []⟩

/-- A thread calls an operation, or takes its next step in the one it has called. -/
inductive Move (ι ω : Type)
  | call (i : ι) (op : ω)
  | step (i : ι)

variable [DecidableEq ι]

def move (B : Body σ ω ρ κ) (s : State ι σ ω ρ κ) : Move ι ω → Option (State ι σ ω ρ κ)
  | .call i op =>
    match s.pc i with
    | .idle =>
      some { s with
        pc := Function.update s.pc i (.waiting s.next op)
        next := s.next + 1
        history := s.history ++ [.call s.next i op] }
    | _ => none
  | .step i =>
    match s.pc i with
    | .idle => none
    | .waiting id op =>
      match s.lock with
      | none =>
        some { s with
          lock := some i
          pc := Function.update s.pc i (.inside id op (B.enter s.data op)) }
      | some _ => none
    | .inside id op k =>
      match B.turn s.data k with
      | (t, .inl l) =>
        some { s with data := t, pc := Function.update s.pc i (.inside id op l) }
      | (t, .inr r) =>
        some { s with
          data := t
          pc := Function.update s.pc i (.unlocking id op r)
          order := s.order ++ [⟨id, i, op, r⟩] }
    | .unlocking id op r =>
      some { s with lock := none, pc := Function.update s.pc i (.returning id op r) }
    | .returning id _ r =>
      some { s with
        pc := Function.update s.pc i .idle
        history := s.history ++ [.ret id i r] }

/-! ## What every interleaving keeps -/

/-- What is known of the call that a thread is in. -/
def ThreadInv (B : Body σ ω ρ κ) (exec : σ → ω → ρ × σ) (s₀ : σ) (s : State ι σ ω ρ κ) (i : ι) :
    Pc ω ρ κ → Prop
  | .idle => True
  | .waiting id op =>
    .call id i op ∈ s.history ∧ id ∉ retIds s.history ∧ id ∉ s.order.map Done.id
  | .inside id op k =>
    (.call id i op ∈ s.history ∧ id ∉ retIds s.history ∧ id ∉ s.order.map Done.id) ∧
      B.Computes s.data k (exec (after exec s₀ s.order) op)
  | .unlocking id op r | .returning id op r =>
    .call id i op ∈ s.history ∧ id ∉ retIds s.history ∧ ⟨id, i, op, r⟩ ∈ s.order

/-- The thread in the loop has changed the object, and nobody else. -/
structure Inv (B : Body σ ω ρ κ) (exec : σ → ω → ρ × σ) (s₀ : σ) (s : State ι σ ω ρ κ) : Prop where
  threads : ∀ i, ThreadInv B exec s₀ s i (s.pc i)
  held : ∀ i, (s.pc i).Holds ↔ s.lock = some i
  data : (∀ i id op k, s.pc i ≠ .inside id op k) → s.data = after exec s₀ s.order
  fresh : ∀ id ∈ callIds s.history, id < s.next
  calls : (callIds s.history).Nodup
  linearizes : Linearizes exec s₀ s.history s.order

section

variable {B : Body σ ω ρ κ} {exec : σ → ω → ρ × σ} {s₀ : σ} {s t : State ι σ ω ρ κ} {i : ι}

omit [DecidableEq ι] in
/-- A step that adds to the histories, and leaves alone the object while the thread is in the
loop, leaves alone what is known of the thread's call. -/
theorem ThreadInv.mono {j : ι} {pc : Pc ω ρ κ} (h : ThreadInv B exec s₀ s j pc)
    (hcall : ∀ id op, .call id j op ∈ s.history → .call id j op ∈ t.history ∧
      (id ∉ retIds s.history → id ∉ retIds t.history) ∧
      (id ∉ s.order.map Done.id → id ∉ t.order.map Done.id))
    (horder : ∀ d ∈ s.order, d ∈ t.order)
    (hdata : ∀ id op k, pc = .inside id op k → t.data = s.data ∧ t.order = s.order) :
    ThreadInv B exec s₀ t j pc := by
  cases pc with
  | idle => trivial
  | waiting id op =>
    obtain ⟨hmem, hret, hdone⟩ := h
    obtain ⟨hmem', hret', hdone'⟩ := hcall id op hmem
    exact ⟨hmem', hret' hret, hdone' hdone⟩
  | inside id op k =>
    obtain ⟨⟨hmem, hret, hdone⟩, hcomputes⟩ := h
    obtain ⟨hmem', hret', hdone'⟩ := hcall id op hmem
    obtain ⟨hdata, horder⟩ := hdata id op k rfl
    exact ⟨⟨hmem', hret' hret, hdone' hdone⟩, by rw [hdata, horder]; exact hcomputes⟩
  | unlocking id op r =>
    obtain ⟨hmem, hret, hdone⟩ := h
    obtain ⟨hmem', hret', -⟩ := hcall id op hmem
    exact ⟨hmem', hret' hret, horder _ hdone⟩
  | returning id op r =>
    obtain ⟨hmem, hret, hdone⟩ := h
    obtain ⟨hmem', hret', -⟩ := hcall id op hmem
    exact ⟨hmem', hret' hret, horder _ hdone⟩

/-- What is known of the threads, when one of them has gone on. -/
theorem forall_update {P : ι → Pc ω ρ κ → Prop} {pc : ι → Pc ω ρ κ} {p : Pc ω ρ κ} (hi : P i p)
    (h : ∀ j, j ≠ i → P j (pc j)) : ∀ j, P j (Function.update pc i p j) := by
  intro j
  by_cases hj : j = i
  · rw [hj, Function.update_self]
    exact hi
  · rw [Function.update_of_ne hj]
    exact h j hj

namespace Inv

omit [DecidableEq ι] in
/-- One thread at a time is in the loop. -/
theorem eq_of_holds (h : Inv B exec s₀ s) {j : ι} (hi : (s.pc i).Holds) (hj : (s.pc j).Holds) :
    i = j :=
  Option.some.inj (((h.held i).1 hi).symm.trans ((h.held j).1 hj))

omit [DecidableEq ι] in
/-- While a thread is in the loop, no other one is. -/
theorem not_inside (h : Inv B exec s₀ s) (hi : (s.pc i).Holds) {j : ι} (hj : j ≠ i) (id : ℕ)
    (op : ω) (k : κ) : s.pc j ≠ .inside id op k :=
  fun hpc ↦ hj (h.eq_of_holds (i := j) (by rw [hpc]; trivial) hi)

/-- What the lock says stays right when a thread goes on without taking or releasing it. -/
theorem held_update (h : Inv B exec s₀ s) {p : Pc ω ρ κ} (hp : p.Holds ↔ (s.pc i).Holds) (j : ι) :
    (Function.update s.pc i p j).Holds ↔ s.lock = some j := by
  by_cases hj : j = i
  · rw [hj, Function.update_self, hp]
    exact h.held i
  · rw [Function.update_of_ne hj]
    exact h.held j

omit [DecidableEq ι] in
/-- Nobody has finished a call that is not in the history. -/
theorem next_not_mem (h : Inv B exec s₀ s) :
    s.next ∉ retIds s.history ∧ s.next ∉ s.order.map Done.id := by
  have hnot : s.next ∉ callIds s.history := fun hmem ↦ Nat.lt_irrefl _ (h.fresh _ hmem)
  have horder : s.next ∉ s.order.map Done.id := by
    intro hmem
    obtain ⟨d, hd, heq⟩ := List.mem_map.1 hmem
    exact hnot (heq ▸ mem_callIds (h.linearizes.called d hd))
  refine ⟨fun hmem ↦ ?_, horder⟩
  obtain ⟨e, he, heq⟩ := List.mem_filterMap.1 hmem
  cases e with
  | call id j op => exact absurd heq (by simp [Event.retId?])
  | ret id j r =>
    obtain ⟨d, hd, hid, -⟩ := h.linearizes.returned id j r he
    exact horder (List.mem_map.2 ⟨d, hd, hid.trans (Option.some.inj heq)⟩)

omit [DecidableEq ι] in
theorem start (s₀ : σ) :
    Inv B exec s₀ (.start s₀ : State ι σ ω ρ κ) where
  threads _ := trivial
  held _ := iff_of_false id (by simp [State.start])
  data _ := rfl
  fresh _ hmem := absurd hmem (by simp [State.start, callIds])
  calls := by simp [State.start, callIds]
  linearizes := ⟨trivial, List.nodup_nil, List.forall_mem_nil _,
    fun _ _ _ hmem ↦ absurd hmem (by simp [State.start]), .nil⟩

/-- A call. -/
theorem call (h : Inv B exec s₀ s) (hpc : s.pc i = .idle) (op : ω) :
    Inv B exec s₀ { s with
      pc := Function.update s.pc i (.waiting s.next op)
      next := s.next + 1
      history := s.history ++ [.call s.next i op] } := by
  obtain ⟨hret, hdone⟩ := h.next_not_mem
  have hrets : retIds (s.history ++ [.call s.next i op]) = retIds s.history := by
    rw [retIds_concat]
    exact List.append_nil _
  have hcalls : callIds (s.history ++ [.call s.next i op]) = callIds s.history ++ [s.next] :=
    callIds_concat _
  refine ⟨forall_update ⟨by simp, by rw [hrets]; exact hret, hdone⟩ fun j _ ↦ ?_,
    h.held_update (by rw [hpc]; exact Iff.rfl), fun hout ↦ h.data fun j id op k hj ↦ ?_,
    fun id hid ↦ ?_, ?_, ?_⟩
  · refine (h.threads j).mono (fun id op hmem ↦ ⟨List.mem_append_left _ hmem, ?_, fun h ↦ h⟩)
      (fun _ hd ↦ hd) fun _ _ _ _ ↦ ⟨rfl, rfl⟩
    rw [hrets]
    exact fun h ↦ h
  · have hne : j ≠ i := fun heq ↦ by
      rw [heq, hpc] at hj
      cases hj
    exact hout j id op k ((Function.update_of_ne hne _ _).trans hj)
  · rw [hcalls, List.mem_append, List.mem_singleton] at hid
    rcases hid with hid | rfl
    · exact Nat.lt_succ_of_lt (h.fresh id hid)
    · exact Nat.lt_succ_self _
  · rw [hcalls, ← List.concat_eq_append]
    exact h.calls.concat fun hmem ↦ Nat.lt_irrefl _ (h.fresh _ hmem)
  · obtain ⟨hlegal, honce, hcalled, hreturned, horder⟩ := h.linearizes
    refine ⟨hlegal, honce, fun d hd ↦ List.mem_append_left _ (hcalled d hd), ?_, ?_⟩
    · intro id j r hmem
      rcases List.mem_append.1 hmem with hmem | hlast
      · exact hreturned id j r hmem
      · exact absurd (List.mem_singleton.1 hlast) (by simp)
    · refine horder.imp_of_mem fun {x y} hx _ hnot hp ↦ ?_
      rcases precedes_concat hp with hp | hcall
      · exact hnot hp
      · exact hdone (List.mem_map.2 ⟨x, hx, (Option.some.inj hcall).symm⟩)

/-- The lock is taken. -/
theorem enter (h : Inv B exec s₀ s) (hB : B.Implements exec) {id : ℕ} {op : ω}
    (hpc : s.pc i = .waiting id op) (hlock : s.lock = none) :
    Inv B exec s₀ { s with
      lock := some i
      pc := Function.update s.pc i (.inside id op (B.enter s.data op)) } := by
  have hfree (j : ι) : ¬ (s.pc j).Holds := fun hj ↦ by
    have hsome := (h.held j).1 hj
    rw [hlock] at hsome
    exact absurd hsome (by simp)
  have hdata : s.data = after exec s₀ s.order :=
    h.data fun j id op k hj ↦ hfree j (by rw [hj]; trivial)
  have hcall : ThreadInv B exec s₀ s i (.waiting id op) := hpc ▸ h.threads i
  refine ⟨forall_update ⟨hcall, ?_⟩ fun j _ ↦ h.threads j, fun j ↦ ?_, fun hout ↦ ?_, h.fresh,
    h.calls, h.linearizes⟩
  · dsimp only
    rw [← hdata]
    exact hB s.data op
  · by_cases hj : j = i
    · rw [hj]
      refine iff_of_true ?_ rfl
      dsimp only
      rw [Function.update_self]
      trivial
    · dsimp only
      rw [Function.update_of_ne hj]
      exact iff_of_false (hfree j) fun heq ↦ hj (Option.some.inj heq).symm
  · exact absurd (Function.update_self i _ s.pc) (hout i id op _)

/-- The loop goes on. -/
theorem turn (h : Inv B exec s₀ s) {id : ℕ} {op : ω} {k l : κ} {d : σ}
    (hpc : s.pc i = .inside id op k) (hturn : B.turn s.data k = (d, .inl l)) :
    Inv B exec s₀ { s with data := d, pc := Function.update s.pc i (.inside id op l) } := by
  have hin : (s.pc i).Holds := by rw [hpc]; trivial
  obtain ⟨hcall, hcomputes⟩ : ThreadInv B exec s₀ s i (.inside id op k) := hpc ▸ h.threads i
  refine ⟨forall_update ⟨hcall, ?_⟩ fun j hj ↦ ?_, h.held_update (iff_of_true trivial hin),
    fun hout ↦ ?_, h.fresh, h.calls, h.linearizes⟩
  · exact hcomputes.of_next hturn
  · exact (h.threads j).mono (fun _ _ hmem ↦ ⟨hmem, fun h ↦ h, fun h ↦ h⟩) (fun _ hd ↦ hd)
      fun id op k hj' ↦ absurd hj' (h.not_inside hin hj id op k)
  · exact absurd (Function.update_self i _ s.pc) (hout i id op l)

/-- The loop comes to its result, and the call is the next one in order. -/
theorem finish (h : Inv B exec s₀ s) {id : ℕ} {op : ω} {k : κ} {d : σ} {r : ρ}
    (hpc : s.pc i = .inside id op k) (hturn : B.turn s.data k = (d, .inr r)) :
    Inv B exec s₀ { s with
      data := d
      pc := Function.update s.pc i (.unlocking id op r)
      order := s.order ++ [⟨id, i, op, r⟩] } := by
  have hin : (s.pc i).Holds := by rw [hpc]; trivial
  obtain ⟨⟨hcall, hret, hdone⟩, hcomputes⟩ : ThreadInv B exec s₀ s i (.inside id op k) :=
    hpc ▸ h.threads i
  have hexec : exec (after exec s₀ s.order) op = (r, d) := hcomputes.of_last hturn
  refine ⟨forall_update ⟨hcall, hret, by simp⟩ fun j hj ↦ ?_,
    h.held_update (iff_of_true trivial hin), fun _ ↦ ?_, h.fresh, h.calls, ?_⟩
  · refine (h.threads j).mono (fun id' op' hmem ↦ ⟨hmem, fun h ↦ h, fun hnot ↦ ?_⟩)
      (fun _ hd ↦ List.mem_append_left _ hd)
      fun id op k hj' ↦ absurd hj' (h.not_inside hin hj id op k)
    rw [List.map_append, List.mem_append, not_or]
    refine ⟨hnot, fun hlast ↦ hj ?_⟩
    obtain rfl := List.mem_singleton.1 hlast
    exact (eq_of_nodup h.calls hmem hcall).1
  · rw [after_concat, hexec]
  · obtain ⟨hlegal, honce, hcalled, hreturned, horder⟩ := h.linearizes
    refine ⟨legal_concat.2 ⟨hlegal, by rw [hexec]⟩, ?_, fun e he ↦ ?_, fun id' j r' hmem ↦ ?_, ?_⟩
    · rw [List.map_append, List.map_singleton, ← List.concat_eq_append]
      exact honce.concat hdone
    · rcases List.mem_append.1 he with hmem | hlast
      · exact hcalled e hmem
      · rw [List.mem_singleton.1 hlast]
        exact hcall
    · obtain ⟨e, he, heq⟩ := hreturned id' j r' hmem
      exact ⟨e, List.mem_append_left _ he, heq⟩
    · refine List.pairwise_append.2 ⟨horder, List.pairwise_singleton _ _, fun x _ y hy hp ↦ ?_⟩
      rw [List.mem_singleton.1 hy] at hp
      exact hret hp.mem_retIds

/-- The lock is released. -/
theorem unlock (h : Inv B exec s₀ s) {id : ℕ} {op : ω} {r : ρ}
    (hpc : s.pc i = .unlocking id op r) :
    Inv B exec s₀ { s with lock := none, pc := Function.update s.pc i (.returning id op r) } := by
  have hin : (s.pc i).Holds := by rw [hpc]; trivial
  have hcall : ThreadInv B exec s₀ s i (.unlocking id op r) := hpc ▸ h.threads i
  refine ⟨forall_update hcall fun j _ ↦ h.threads j, fun j ↦ iff_of_false ?_ (by simp),
    fun _ ↦ h.data fun j id' op' k hj ↦ ?_, h.fresh, h.calls, h.linearizes⟩
  · dsimp only
    by_cases hj : j = i
    · rw [hj, Function.update_self]
      exact fun hreturning ↦ hreturning
    · rw [Function.update_of_ne hj]
      exact fun hholds ↦ hj (h.eq_of_holds hholds hin)
  · by_cases hji : j = i
    · rw [hji, hpc] at hj
      cases hj
    · exact h.not_inside hin hji id' op' k hj

/-- The call returns. -/
theorem ret (h : Inv B exec s₀ s) {id : ℕ} {op : ω} {r : ρ}
    (hpc : s.pc i = .returning id op r) :
    Inv B exec s₀ { s with
      pc := Function.update s.pc i .idle
      history := s.history ++ [.ret id i r] } := by
  obtain ⟨hcall, hret, hdone⟩ : ThreadInv B exec s₀ s i (.returning id op r) := hpc ▸ h.threads i
  have hrets : retIds (s.history ++ [.ret id i r]) = retIds s.history ++ [id] := retIds_concat _
  have hcalls : callIds (s.history ++ [.ret id i r]) = callIds s.history := by
    rw [callIds_concat]
    exact List.append_nil _
  refine ⟨forall_update trivial fun j hj ↦ ?_, h.held_update (by rw [hpc]; exact Iff.rfl),
    fun hout ↦ h.data fun j id' op' k hj ↦ ?_, fun id' hid ↦ h.fresh id' (hcalls ▸ hid),
    by rw [hcalls]; exact h.calls, ?_⟩
  · refine (h.threads j).mono
      (fun id' op' hmem ↦ ⟨List.mem_append_left _ hmem, fun hnot ↦ ?_, fun h ↦ h⟩)
      (fun _ hd ↦ hd) fun _ _ _ _ ↦ ⟨rfl, rfl⟩
    rw [hrets, List.mem_append, not_or]
    refine ⟨hnot, fun hlast ↦ hj ?_⟩
    obtain rfl := List.mem_singleton.1 hlast
    exact (eq_of_nodup h.calls hmem hcall).1
  · have hne : j ≠ i := fun heq ↦ by
      rw [heq, hpc] at hj
      cases hj
    exact hout j id' op' k ((Function.update_of_ne hne _ _).trans hj)
  · obtain ⟨hlegal, honce, hcalled, hreturned, horder⟩ := h.linearizes
    refine ⟨hlegal, honce, fun d hd ↦ List.mem_append_left _ (hcalled d hd),
      fun id' j r' hmem ↦ ?_, horder.imp fun hnot hp ↦ ?_⟩
    · rcases List.mem_append.1 hmem with hmem | hlast
      · exact hreturned id' j r' hmem
      · cases List.mem_singleton.1 hlast
        exact ⟨_, hdone, rfl, rfl, rfl⟩
    · rcases precedes_concat hp with hp | hno
      · exact hnot hp
      · exact absurd hno (by simp [Event.callId?])

theorem move (h : Inv B exec s₀ s) (hB : B.Implements exec) {m : Move ι ω}
    (hs : move B s m = some t) : Inv B exec s₀ t := by
  cases m with
  | call i op =>
    rw [Linearizable.move] at hs
    split at hs
    · next hpc => exact Option.some.inj hs ▸ h.call hpc op
    · exact absurd hs (by simp)
  | step i =>
    rw [Linearizable.move] at hs
    split at hs
    · exact absurd hs (by simp)
    · next id op hpc =>
      split at hs
      · next hlock => exact Option.some.inj hs ▸ h.enter hB hpc hlock
      · exact absurd hs (by simp)
    · next id op k hpc =>
      split at hs
      · next hturn => exact Option.some.inj hs ▸ h.turn hpc hturn
      · next hturn => exact Option.some.inj hs ▸ h.finish hpc hturn
    · next hpc => exact Option.some.inj hs ▸ h.unlock hpc
    · next hpc => exact Option.some.inj hs ▸ h.ret hpc

/-- **The threads do not block each other**: where one of them is in a call, one of them can go
on. -/
theorem exists_move (h : Inv B exec s₀ s) (hi : s.pc i ≠ .idle) :
    ∃ j t, Linearizable.move B s (.step j) = some t := by
  have hgo {j : ι} (hj : s.pc j ≠ .idle)
      (hfree : ∀ id op, s.pc j = .waiting id op → s.lock = none) :
      ∃ t, Linearizable.move B s (.step j) = some t := by
    rw [Linearizable.move]
    cases hpc : s.pc j with
    | idle => exact absurd hpc hj
    | waiting id op =>
      dsimp only
      rw [hfree id op hpc]
      exact ⟨_, rfl⟩
    | inside id op k =>
      dsimp only
      split
      · exact ⟨_, rfl⟩
      · exact ⟨_, rfl⟩
    | unlocking id op r => exact ⟨_, rfl⟩
    | returning id op r => exact ⟨_, rfl⟩
  cases hlock : s.lock with
  | none => exact ⟨i, hgo hi fun _ _ _ ↦ hlock⟩
  | some j =>
    -- who has the lock can go on
    have hholds := (h.held j).2 hlock
    refine ⟨j, hgo (fun hidle ↦ ?_) fun id op hwait ↦ ?_⟩
    · rw [hidle] at hholds
      exact hholds
    · rw [hwait] at hholds
      exact hholds.elim

end Inv

/-- **The object is linearizable**: in every run the calls that have come to a result, in this
order, explain what is seen from outside. -/
theorem inv_of_run (hB : B.Implements exec) {ms : List (Move ι ω)}
    (hr : run (move B) (.start s₀) ms = some s) : Inv B exec s₀ s :=
  (always_of_invariant (Inv B exec s₀) (fun _ h ↦ h) (fun _ _ _ h hs ↦ h.move hB hs) ms
    (.start s₀)).of_run hr

end

end Linearizable
