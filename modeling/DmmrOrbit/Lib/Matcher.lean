import DmmrOrbit.Lib.Lexer
import Mathlib.Data.List.Find

/-!
# Longest matches by automaton

A lexer is run by an automaton that reads the text once, from the left, and remembers the last place
at which some rule matched what it had read (`Matcher.longest`).  When the automaton can go no
further, the remembered place is the longest match.  `Matcher.Knows.munch_eq` says so: an automaton
that knows of every word which rule matches it first, and that gives up only when no rule matches
anything longer, finds what `munch` finds.

Such an automaton comes from one small machine for each rule.  A `Recognizer` reads the words of one
pattern, and its steps may be missing: a missing step says that nothing that starts like this is
matched.  The recognizers of all the rules, side by side, are an automaton for the list of rules.
`Matcher.Simulates` says of another automaton, one with a table of transitions say, that it keeps
pace with them; `Simulates.knows` is the reduction of what has to be known about all words to what
can be checked state by state.
-/

set_option autoImplicit false

universe u v w

namespace Lexer

variable {α : Type u} {β : Type v} {σ : Type w}

/-! ## Machines -/

/-- A deterministic machine, some of whose steps may be missing. -/
structure Machine (α : Type u) (σ : Type w) where
  start : σ
  step : σ → α → Option σ

namespace Machine

variable (M : Machine α σ)

/-- The state after a word, if the machine has come that far. -/
def run (x : List α) : Option σ := x.foldlM M.step M.start

@[simp] theorem run_nil : M.run [] = some M.start := rfl

theorem run_concat (x : List α) (a : α) :
    M.run (x ++ [a]) = (M.run x).bind fun s ↦ M.step s a := by
  rw [run, run, List.foldlM_append]
  cases h : x.foldlM M.step M.start with
  | none => rfl
  | some s =>
    show (M.step s a >>= pure) = M.step s a
    exact bind_pure _

/-- A machine that has stopped does not start again. -/
theorem run_append_of_eq_none {x : List α} (h : M.run x = none) (y : List α) :
    M.run (x ++ y) = none := by
  rw [run] at h ⊢
  rw [List.foldlM_append, h]; rfl

end Machine

/-! ## Recognizers -/

theorem Single.congr {P : RegularExpression α} {p q : α → Prop} (h : Single P p)
    (hpq : ∀ a, p a ↔ q a) : Single P q := fun x ↦ by
  rw [h x]; simp only [hpq]

/-- A machine that reads the words of one pattern. -/
structure Recognizer (α : Type u) extends Machine α ℕ where
  accept : ℕ → Bool

namespace Recognizer

/-- Whether the machine accepts what comes, from a state on. -/
def accepts (M : Recognizer α) : ℕ → List α → Bool
  | s, [] => M.accept s
  | s, a :: x => (M.step s a).any fun t ↦ accepts M t x

theorem accepts_eq (M : Recognizer α) (x : List α) (s : ℕ) :
    M.accepts s x = (x.foldlM M.step s).any M.accept := by
  induction x generalizing s with
  | nil => rfl
  | cons a x ih =>
    rw [accepts, List.foldlM_cons]
    cases M.step s a with
    | none => rfl
    | some t => exact ih t

/-- The machine accepts the words that the pattern matches. -/
def Reads (M : Recognizer α) (P : RegularExpression α) : Prop :=
  ∀ x, M.accepts M.start x = true ↔ x ∈ P.matches'

theorem Reads.rmatch_eq [DecidableEq α] {M : Recognizer α} {P : RegularExpression α}
    (h : M.Reads P) (x : List α) : P.rmatch x = (M.run x).any M.accept := by
  rw [Machine.run, ← M.accepts_eq, Bool.eq_iff_iff, RegularExpression.rmatch_iff_matches', h x]

/-- Reads one symbol with the first property, then any number of symbols with the second. -/
def headTail (p q : α → Bool) : Recognizer α where
  start := 0
  step s a := if (if s = 0 then p a else q a) then some 1 else none
  accept s := s == 1

/-- Reads one symbol with the property. -/
def single (p : α → Bool) : Recognizer α := headTail p fun _ ↦ false

/-- Reads a fixed word; the state is the number of symbols that have been read. -/
def ofWord [DecidableEq α] (w : List α) : Recognizer α where
  start := 0
  step n a := if w[n]? = some a then some (n + 1) else none
  accept n := n == w.length

/-- Reads symbols by their classes. -/
def comap {γ : Type v} (f : α → γ) (M : Recognizer γ) : Recognizer α where
  start := M.start
  step s a := M.step s (f a)
  accept := M.accept

theorem accepts_comap {γ : Type v} (f : α → γ) (M : Recognizer γ) (x : List α) (s : ℕ) :
    (M.comap f).accepts s x = M.accepts s (x.map f) := by
  induction x generalizing s with
  | nil => rfl
  | cons a x ih =>
    rw [accepts, List.map_cons, accepts, funext ih]
    rfl

variable {p q : α → Bool} {P Q : RegularExpression α}

theorem accepts_headTail_one (x : List α) :
    (headTail p q).accepts 1 x = true ↔ ∀ a ∈ x, q a = true := by
  induction x with
  | nil => exact iff_of_true rfl (by simp)
  | cons a x ih =>
    rw [accepts, List.forall_mem_cons, ← ih]
    cases hq : q a <;> simp [headTail, hq]

theorem accepts_headTail_cons (a : α) (x : List α) :
    (headTail p q).accepts 0 (a :: x) = true ↔ p a = true ∧ ∀ b ∈ x, q b = true := by
  rw [accepts, ← accepts_headTail_one (p := p)]
  cases hp : p a <;> simp [headTail, hp]

theorem reads_single (hP : Single P (p · = true)) : (single p).Reads P := by
  intro x
  rw [hP x]
  cases x with
  | nil => simp [accepts, single, headTail]
  | cons a x =>
    refine (accepts_headTail_cons a x).trans ⟨fun ⟨ha, hx⟩ ↦ ⟨a, ha, ?_⟩, fun ⟨b, hb, heq⟩ ↦ ?_⟩
    · cases x with
      | nil => rfl
      | cons b x => exact absurd (hx b List.mem_cons_self) Bool.false_ne_true
    · obtain ⟨rfl, rfl⟩ := List.cons.inj heq
      exact ⟨hb, by simp⟩

theorem reads_mul_star (hP : Single P (p · = true)) (hQ : Single Q (q · = true)) :
    (headTail p q).Reads (P * Q.star) := by
  intro x
  rw [mem_mul]
  cases x with
  | nil =>
    refine iff_of_false Bool.false_ne_true ?_
    rintro ⟨y, hy, z, -, heq⟩
    obtain ⟨a, -, rfl⟩ := (hP y).1 hy
    exact absurd heq (List.cons_ne_nil _ _)
  | cons a x =>
    refine (accepts_headTail_cons a x).trans ⟨fun ⟨ha, hx⟩ ↦ ?_, ?_⟩
    · exact ⟨[a], (hP _).2 ⟨a, ha, rfl⟩, x, hQ.mem_star.2 hx, rfl⟩
    · rintro ⟨y, hy, z, hz, heq⟩
      obtain ⟨b, hb, rfl⟩ := (hP y).1 hy
      obtain ⟨rfl, rfl⟩ := List.cons.inj heq
      exact ⟨hb, hQ.mem_star.1 hz⟩

theorem reads_oneOrMore (hP : Single P (p · = true)) : (headTail p p).Reads (oneOrMore P) :=
  reads_mul_star hP hP

section

variable [DecidableEq α]

theorem accepts_ofWord (w x : List α) (n : ℕ) (hn : n ≤ w.length) :
    (ofWord w).accepts n x = true ↔ w.drop n = x := by
  induction x generalizing n with
  | nil =>
    have hend : (ofWord w).accepts n [] = true ↔ n = w.length := beq_iff_eq
    rw [hend, List.drop_eq_nil_iff]
    omega
  | cons a x ih =>
    have hstep : (ofWord w).accepts n (a :: x) = true ↔
        w[n]? = some a ∧ (ofWord w).accepts (n + 1) x = true := by
      by_cases ha : w[n]? = some a <;> simp [accepts, ofWord, ha]
    rcases Nat.lt_or_eq_of_le hn with hlt | rfl
    · rw [hstep, ih (n + 1) hlt, List.drop_eq_getElem_cons hlt, List.cons.injEq,
        List.getElem?_eq_getElem hlt, Option.some.injEq]
    · rw [hstep, List.getElem?_eq_none le_rfl, List.drop_length]
      exact iff_of_false (fun h ↦ nomatch h.1) nofun

theorem reads_ofWord (w : List α) : (ofWord w).Reads (word w) := fun x ↦ by
  rw [mem_word]
  exact (accepts_ofWord w x 0 (Nat.zero_le _)).trans eq_comm

end

/-- A word can be read by the classes of its symbols if these are alone in their classes. -/
theorem reads_comap_ofWord {γ : Type u} [DecidableEq γ] {f : α → γ} {w : List α}
    (h : ∀ a ∈ w, ∀ b, f b = f a → b = a) : ((ofWord (w.map f)).comap f).Reads (word w) := by
  intro x
  rw [accepts_comap, mem_word]
  refine (reads_ofWord (w.map f) (x.map f)).trans ?_
  rw [mem_word]
  refine ⟨fun hx ↦ ?_, congrArg _⟩
  have hlen : x.length = w.length := by simpa using congrArg List.length hx
  refine List.ext_getElem hlen fun i hi hi' ↦ h _ (List.getElem_mem hi') _ ?_
  simpa [hi, hi'] using congrArg (·[i]?) hx

end Recognizer

/-! ## Recognizers side by side -/

section

variable (Ms : List (Recognizer α))

/-- The recognizers that are still running, each with its number and its state. -/
def startAll : List (ℕ × ℕ) := Ms.zipIdx.map fun p ↦ (p.2, p.1.start)

/-- One more symbol for all of them; those that stop are dropped. -/
def stepAll (r : List (ℕ × ℕ)) (a : α) : List (ℕ × ℕ) :=
  r.filterMap fun p ↦ Ms[p.1]?.bind fun M ↦ (M.step p.2 a).map (p.1, ·)

def runAll (x : List α) : List (ℕ × ℕ) := x.foldl (stepAll Ms) (startAll Ms)

/-- The first recognizer that accepts. -/
def acceptAll (r : List (ℕ × ℕ)) : Option ℕ :=
  (r.find? fun p ↦ Ms[p.1]?.any fun M ↦ M.accept p.2).map Prod.fst

theorem runAll_concat (x : List α) (a : α) :
    runAll Ms (x ++ [a]) = stepAll Ms (runAll Ms x) a := by
  rw [runAll, List.foldl_append]; rfl

theorem getElem?_of_mem_zipIdx {p : Recognizer α × ℕ} (hp : p ∈ Ms.zipIdx) :
    Ms[p.2]? = some p.1 :=
  List.mk_mem_zipIdx_iff_getElem?.1 hp

/-- Those still running after a word are those whose own run has come that far. -/
theorem runAll_eq (x : List α) :
    runAll Ms x = Ms.zipIdx.filterMap fun p ↦ (p.1.run x).map (p.2, ·) := by
  induction x using List.reverseRecOn with
  | nil => exact List.filterMap_eq_map'.symm ▸ rfl
  | append_singleton x a ih =>
    rw [runAll_concat, ih, stepAll, List.filterMap_filterMap]
    refine List.filterMap_congr fun p hp ↦ ?_
    rw [p.1.run_concat]
    cases p.1.run x with
    | none => rfl
    | some s =>
      show (Ms[p.2]?.bind fun M ↦ (M.step s a).map (p.2, ·)) = _
      rw [getElem?_of_mem_zipIdx Ms hp]; rfl

theorem acceptAll_lt {r : List (ℕ × ℕ)} {i : ℕ} (h : acceptAll Ms r = some i) :
    i < Ms.length := by
  obtain ⟨p, hp, rfl⟩ := Option.map_eq_some_iff.1 h
  have hany := List.find?_some hp
  by_contra hlt
  rw [List.getElem?_eq_none (not_lt.1 hlt)] at hany
  exact Bool.false_ne_true hany

section

variable {γ : Type v} (f : α → γ) (Ns : List (Recognizer γ))

theorem startAll_comap : startAll (Ns.map (·.comap f)) = startAll Ns := by
  rw [startAll, startAll, List.zipIdx_map, List.map_map]; rfl

theorem stepAll_comap (r : List (ℕ × ℕ)) (a : α) :
    stepAll (Ns.map (·.comap f)) r a = stepAll Ns r (f a) := by
  rw [stepAll, stepAll]
  refine List.filterMap_congr fun p _ ↦ ?_
  rw [List.getElem?_map]
  cases Ns[p.1]? <;> rfl

theorem acceptAll_comap (r : List (ℕ × ℕ)) :
    acceptAll (Ns.map (·.comap f)) r = acceptAll Ns r := by
  rw [acceptAll, acceptAll]
  congr 2
  funext p
  rw [List.getElem?_map]
  cases Ns[p.1]? <;> rfl

end

/-- The recognizers are those of the rules, one for each. -/
def ReadAll (rules : List (Rule α β)) : Prop :=
  List.Forall₂ (fun M r ↦ M.Reads r.pattern) Ms rules

variable {Ms} [DecidableEq α] {rules : List (Rule α β)}

theorem ReadAll.acceptAll (h : ReadAll Ms rules) (x : List α) :
    acceptAll Ms (runAll Ms x) = rules.findIdx? fun r ↦ r.pattern.rmatch x := by
  have hreads : rules.findIdx? (fun r ↦ r.pattern.rmatch x) =
      Ms.findIdx? fun M ↦ (M.run x).any M.accept := by
    induction h with
    | nil => rfl
    | cons hr _ ih => rw [List.findIdx?_cons, List.findIdx?_cons, ih, hr.rmatch_eq]
  have hfind : (runAll Ms x).find? (fun p ↦ Ms[p.1]?.any fun M ↦ M.accept p.2) =
      (Ms.zipIdx.find? fun p ↦ (p.1.run x).any p.1.accept).bind fun p ↦
        (p.1.run x).map (p.2, ·) := by
    rw [runAll_eq, List.find?_filterMap]
    congr 1
    refine List.find?_congr fun p hp ↦ ?_
    cases p.1.run x with
    | none => rfl
    | some s =>
      show (Ms[p.2]?.any fun M ↦ M.accept s) = p.1.accept s
      rw [getElem?_of_mem_zipIdx Ms hp]; rfl
  rw [Lexer.acceptAll, hfind, hreads, List.findIdx?_eq_fst_find?_zipIdx]
  cases hp : Ms.zipIdx.find? fun p ↦ (p.1.run x).any p.1.accept with
  | none => rfl
  | some p =>
    have hany := List.find?_some hp
    cases hrun : p.1.run x with
    | none => rw [hrun] at hany; exact absurd hany Bool.false_ne_true
    | some s => simp [hrun]

theorem ReadAll.firstMatch (h : ReadAll Ms rules) (x : List α) :
    firstMatch rules x = (Lexer.acceptAll Ms (runAll Ms x)).bind (rules[·]?) := by
  rw [h.acceptAll, Lexer.firstMatch, List.find?_eq_bind_findIdx?_getElem?]

end

/-! ## The automaton -/

/-- An automaton for a list of rules: `act` is the rule that matches what has been read. -/
structure Matcher (α : Type u) (σ : Type w) extends Machine α σ where
  act : σ → Option ℕ

namespace Matcher

variable (M : Matcher α σ)

/-- The last match, once the automaton is in state `s` behind the `n`-th symbol. -/
def lastMatch (s : σ) (n : ℕ) (last : Option (ℕ × ℕ)) : Option (ℕ × ℕ) :=
  match M.act s with
  | some i => some (n, i)
  | none => last

/-- Reads on from state `s` behind the `n`-th symbol, and comes back with the last match. -/
def scan : σ → ℕ → Option (ℕ × ℕ) → List α → Option (ℕ × ℕ)
  | s, n, last, [] => M.lastMatch s n last
  | s, n, last, a :: w => match M.step s a with
    | some t => scan t (n + 1) (M.lastMatch s n last) w
    | none => M.lastMatch s n last

/-- The longest match at the start of the text: its length, and the rule. -/
def longest (w : List α) : Option (ℕ × ℕ) := M.scan M.start 0 none w

section

variable [DecidableEq α] {M} {rules : List (Rule α β)}

/-- The automaton knows which rule matches a word, and when there is no use in reading on. -/
structure Knows (M : Matcher α σ) (rules : List (Rule α β)) : Prop where
  start : M.act M.start = none
  act : ∀ x s, M.run x = some s → firstMatch rules x = (M.act s).bind (rules[·]?)
  act_lt : ∀ x s i, M.run x = some s → M.act s = some i → i < rules.length
  jam : ∀ x, M.run x = none → firstMatch rules x = none

/-- The rule in the place of its number. -/
def toMatch (rules : List (Rule α β)) (m : Option (ℕ × ℕ)) : Option (ℕ × Rule α β) :=
  m.bind fun m ↦ rules[m.2]?.map fun r ↦ (m.1, r)

/-- Past the jam nothing is matched. -/
theorem Knows.munch_of_jam (h : M.Knows rules) {w : List α} {n : ℕ}
    (hjam : M.run (w.take (n + 1)) = none) {m : ℕ} (hm : n ≤ m) :
    munch rules w m = munch rules w n := by
  induction m, hm using Nat.le_induction with
  | base => rfl
  | succ m hm ih =>
    have hsplit : w.take (m + 1) = w.take (n + 1) ++ (w.take (m + 1)).drop (n + 1) := by
      conv_lhs => rw [← List.take_append_drop (n + 1) (w.take (m + 1)), List.take_take]
      rw [Nat.min_eq_left (by omega)]
    have hnone : firstMatch rules (w.take (m + 1)) = none := by
      rw [hsplit]; exact h.jam _ (M.run_append_of_eq_none hjam _)
    rw [munch, hnone]
    exact ih

theorem Knows.lastMatch_eq (h : M.Knows rules) {w : List α} {n : ℕ} {s : σ}
    (hrun : M.run (w.take (n + 1)) = some s) {last : Option (ℕ × ℕ)}
    (hlast : toMatch rules last = munch rules w n) :
    toMatch rules (M.lastMatch s (n + 1) last) = munch rules w (n + 1) := by
  rw [munch, h.act _ _ hrun, lastMatch]
  cases hact : M.act s with
  | none => exact hlast
  | some i =>
    have hi := h.act_lt _ s i hrun hact
    simp [toMatch, List.getElem?_eq_getElem hi]

/-- The scan from the `n`-th symbol on, when the last match is the longest one so far. -/
theorem Knows.scan_eq (h : M.Knows rules) {w : List α} (v : List α) {n : ℕ} {s : σ}
    (hv : w.drop n = v) (hn : n ≤ w.length) (hrun : M.run (w.take n) = some s)
    {last : Option (ℕ × ℕ)} (hlast : toMatch rules (M.lastMatch s n last) = munch rules w n) :
    toMatch rules (M.scan s n last v) = munch rules w w.length := by
  induction v generalizing n s last with
  | nil =>
    have hlen : n = w.length := le_antisymm hn (List.drop_eq_nil_iff.1 hv)
    rw [scan, hlast, hlen]
  | cons a v ih =>
    have hlt : n < w.length := by
      rw [← List.drop_eq_nil_iff.not.trans not_le, hv]; exact List.cons_ne_nil _ _
    have htake : w.take (n + 1) = w.take n ++ [a] := by
      rw [List.take_add_one, ← List.head?_drop, hv]; rfl
    have hstep : M.run (w.take (n + 1)) = M.step s a := by
      rw [htake, M.run_concat, hrun]; rfl
    rw [scan]
    cases ht : M.step s a with
    | none => exact hlast.trans (h.munch_of_jam (hstep.trans ht) hlt.le).symm
    | some t =>
      have hdrop : w.drop (n + 1) = v := by rw [← List.drop_drop, hv]; rfl
      exact ih hdrop hlt (hstep.trans ht) (h.lastMatch_eq (hstep.trans ht) hlast)

/-- **An automaton that knows the rules finds the longest match.** -/
theorem Knows.munch_eq (h : M.Knows rules) (w : List α) :
    toMatch rules (M.longest w) = munch rules w w.length :=
  h.scan_eq w List.drop_zero (Nat.zero_le _) rfl (by rw [lastMatch, h.start]; rfl)

end

/-! ## Reading on in the middle of a word -/

section

/-- Reads a word, and comes back with the state and the last match in front of it. -/
def trace : σ → ℕ → Option (ℕ × ℕ) → List α → Option (σ × Option (ℕ × ℕ))
  | s, _, last, [] => some (s, last)
  | s, n, last, a :: x => (M.step s a).bind fun t ↦ trace t (n + 1) (M.lastMatch s n last) x

theorem trace_append (s : σ) (n : ℕ) (last : Option (ℕ × ℕ)) (x y : List α) :
    M.trace s n last (x ++ y) =
      (M.trace s n last x).bind fun r ↦ M.trace r.1 (n + x.length) r.2 y := by
  induction x generalizing s n last with
  | nil => rfl
  | cons a x ih =>
    rw [List.cons_append, trace, trace, Option.bind_assoc]
    refine Option.bind_congr fun t _ ↦ ?_
    rw [ih, List.length_cons, Nat.add_right_comm, Nat.add_assoc]

variable {M}

/-- The scan of a text goes on from where a word at its start has led. -/
theorem scan_of_trace {s t : σ} {n : ℕ} {last last' : Option (ℕ × ℕ)} {x : List α}
    (h : M.trace s n last x = some (t, last')) (v : List α) :
    M.scan s n last (x ++ v) = M.scan t (n + x.length) last' v := by
  induction x generalizing s n last with
  | nil =>
    obtain ⟨rfl, rfl⟩ := Prod.mk.inj (Option.some.inj h)
    rfl
  | cons a x ih =>
    obtain ⟨u, hu, h⟩ := Option.bind_eq_some_iff.1 h
    rw [List.cons_append, scan, hu]
    dsimp only
    rw [ih h, List.length_cons, Nat.add_right_comm, Nat.add_assoc]

theorem scan_isSome {s : σ} {n : ℕ} {last : Option (ℕ × ℕ)}
    (h : (M.lastMatch s n last).isSome) (v : List α) : (M.scan s n last v).isSome := by
  induction v generalizing s n last with
  | nil => exact h
  | cons a v ih =>
    rw [scan]
    cases M.step s a with
    | none => exact h
    | some t =>
      refine ih ?_
      rw [lastMatch]
      cases M.act t with
      | none => exact h
      | some i => rfl

/-- If every symbol is matched by itself, every text begins with a match. -/
theorem longest_isSome (h : ∀ a, ∃ t i, M.step M.start a = some t ∧ M.act t = some i) {w : List α}
    (hw : w ≠ []) : (M.longest w).isSome := by
  cases w with
  | nil => exact absurd rfl hw
  | cons a w =>
    obtain ⟨t, i, ht, hi⟩ := h a
    rw [longest, scan, ht]
    refine scan_isSome ?_ w
    rw [lastMatch, hi]; rfl

variable [DecidableEq α] {rules : List (Rule α β)}

theorem Knows.lastMatch_lt (h : M.Knows rules) {x : List α} {s : σ} (hrun : M.run x = some s)
    {n : ℕ} {last : Option (ℕ × ℕ)} (hlast : ∀ m i, last = some (m, i) → i < rules.length)
    {m i : ℕ} (hm : M.lastMatch s n last = some (m, i)) : i < rules.length := by
  rw [lastMatch] at hm
  cases hact : M.act s with
  | none => rw [hact] at hm; exact hlast m i hm
  | some j =>
    rw [hact] at hm
    obtain ⟨-, rfl⟩ := Prod.mk.inj (Option.some.inj hm)
    exact h.act_lt x s _ hrun hact

theorem Knows.scan_lt (h : M.Knows rules) (v : List α) {x : List α} {s : σ}
    (hrun : M.run x = some s) {n : ℕ} {last : Option (ℕ × ℕ)}
    (hlast : ∀ m i, last = some (m, i) → i < rules.length) {m i : ℕ}
    (hs : M.scan s n last v = some (m, i)) : i < rules.length := by
  induction v generalizing x s n last with
  | nil => exact h.lastMatch_lt hrun hlast hs
  | cons a v ih =>
    rw [scan] at hs
    cases ht : M.step s a with
    | none => rw [ht] at hs; exact h.lastMatch_lt hrun hlast hs
    | some t =>
      rw [ht] at hs
      have hrun' : M.run (x ++ [a]) = some t := by rw [M.run_concat, hrun]; exact ht
      exact ih hrun' (fun m i ↦ h.lastMatch_lt hrun hlast) hs

/-- One round of the lexer, by automaton. -/
theorem Knows.lex_eq (h : M.Knows rules) {w : List α} {n i : ℕ}
    (hw : M.longest w = some (n, i)) :
    ∃ r, rules[i]? = some r ∧ 0 < n ∧ n ≤ w.length ∧
      lex rules w = (r.action (w.take n)).toList ++ lex rules (w.drop n) := by
  have hnone : ∀ m i, (none : Option (ℕ × ℕ)) = some (m, i) → i < rules.length := nofun
  have hi : i < rules.length := h.scan_lt w M.run_nil hnone hw
  have hmunch : munch rules w w.length = some (n, rules[i]) := by
    rw [← h.munch_eq w, hw, toMatch, Option.bind_some, List.getElem?_eq_getElem hi]; rfl
  have hpos := munch_pos hmunch
  have hle := munch_le hmunch
  refine ⟨rules[i], List.getElem?_eq_getElem hi, hpos, hle, ?_⟩
  cases w with
  | nil => exact absurd hle (by rw [List.length_nil]; omega)
  | cons a w =>
    rw [lex, List.length_cons, lexFrom]
    rw [List.length_cons] at hmunch
    rw [hmunch]
    dsimp only
    rw [lexFrom_of_length_le _ _ _ (by rw [List.length_drop, List.length_cons]; omega)]

end

/-! ## Keeping pace -/

section

variable {M} {rules : List (Rule α β)} {Ms : List (Recognizer α)}

/-- The automaton keeps pace with the recognizers: on the states `S`, which it does not leave, `Φ`
says which recognizers are still running, and in which states. -/
structure Simulates (M : Matcher α σ) (Ms : List (Recognizer α)) (S : σ → Prop)
    (Φ : σ → List (ℕ × ℕ)) : Prop where
  start : S M.start ∧ M.act M.start = none ∧ Φ M.start = startAll Ms
  act : ∀ s, S s → M.act s = acceptAll Ms (Φ s)
  step : ∀ s a t, S s → M.step s a = some t → S t ∧ Φ t = stepAll Ms (Φ s) a
  jam : ∀ s a, S s → M.step s a = none → stepAll Ms (Φ s) a = []

variable {S : σ → Prop} {Φ : σ → List (ℕ × ℕ)}

theorem Simulates.run (h : M.Simulates Ms S Φ) (x : List α) :
    (∀ s, M.run x = some s → S s ∧ Φ s = runAll Ms x) ∧ (M.run x = none → runAll Ms x = []) := by
  induction x using List.reverseRecOn with
  | nil => exact ⟨fun s hs ↦ Option.some.inj hs ▸ ⟨h.start.1, h.start.2.2⟩, nofun⟩
  | append_singleton x a ih =>
    rw [M.run_concat, runAll_concat]
    cases hx : M.run x with
    | none =>
      rw [ih.2 hx]
      exact ⟨nofun, fun _ ↦ rfl⟩
    | some s =>
      obtain ⟨hS, hΦ⟩ := ih.1 s hx
      rw [← hΦ]
      exact ⟨fun t ht ↦ h.step s a t hS ht, fun ht ↦ h.jam s a hS ht⟩

/-- **What keeps pace with the recognizers of the rules knows the rules.** -/
theorem Simulates.knows [DecidableEq α] (h : M.Simulates Ms S Φ) (hread : ReadAll Ms rules) :
    M.Knows rules where
  start := h.start.2.1
  act x s hs := by
    obtain ⟨hS, hΦ⟩ := (h.run x).1 s hs
    rw [hread.firstMatch, h.act s hS, hΦ]
  act_lt x s i hs hi := by
    rw [h.act s ((h.run x).1 s hs).1] at hi
    exact hread.length_eq ▸ acceptAll_lt Ms hi
  jam x hx := by
    rw [hread.firstMatch, (h.run x).2 hx]; rfl

end

end Matcher

end Lexer
