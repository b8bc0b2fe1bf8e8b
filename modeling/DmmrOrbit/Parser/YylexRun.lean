import DmmrOrbit.Parser.Yylex
import Mathlib.Tactic.IntervalCases

/-!
# What the generated scanner sends

`yylex_sends_tokens` is the result: `scanner.c` calls `handle_token` with the tokens that the rules
of `scanner.l` make of the text.

A token may be scanned in several attempts, for the automaton stops at every NUL and at the end of
the buffer.  What carries over from one attempt to the next is how far the token has been read:
`HasRead` says that the cursor is where the automaton is behind the first characters of the token,
and that the last accepting state is the last match among them.  `yyMatch_spec` reads on from there,
`yyGetNextBuffer_spec` moves what has been read to the front of the buffer, and
`yyGetPreviousState_spec` takes the cursor back to where it was.  The labels of `yylex` have one
invariant each (`AtLoop`, `AtMatch`, `AtFind`, `AtEob`), a step leads from one to the other, and
every round leaves less to read, of the token or of the file (`AtMatch.sends`).
-/

set_option autoImplicit false

open Lexer

namespace DmmrOrbit

namespace Scanner

/-! ## What the tables say -/

theorem yyEc_eq (b : UInt8) : yyEc[b.toNat]? = some (if b = 0 then 0 else yyClass b) := by
  have hlen : yyEc.length = 256 := by decide +kernel
  have hb : b.toNat < yyEc.length := hlen ▸ b.toNat_lt
  by_cases hz : b = 0
  · rw [if_pos hz, hz]; rfl
  · rw [if_neg hz, yyClass, if_neg hz, List.getD_eq_getElem?_getD, List.getElem?_eq_getElem hb,
      Option.getD_some]

theorem yyClass_zero : yyClass 0 = 1 := rfl

theorem yyAccept_eq_some : ∀ s ∈ yyStates, (yyAccept[s]?).isSome ∧
    ∀ a ∈ yyAccept[s]?, a < 20 := by decide +kernel

theorem yyBase_eq_some : ∀ s ∈ yyStates, (yyBase[s]?).isSome := by decide +kernel

/-- A state with the row of the jam accepts, and nothing leads out of it. -/
theorem jams_of_yyBase : ∀ s ∈ yyStates, yyBase[s]? = some 188 →
    (yyMatcher.act s).isSome ∧ ∀ c ∈ yyClasses, packedTables.nextState s c = some yyJam := by
  decide +kernel

/-- A NUL leads to state 3, and out of it nothing leads. -/
theorem nextState_nul : ∀ s ∈ yyStates, packedTables.nextState s 0 = some 3 := by decide +kernel

theorem nextState_eob : ∀ c ∈ List.range 34, packedTables.nextState 3 c = some yyJam := by
  decide +kernel

/-- Every byte is matched by itself. -/
theorem nextState_start : ∀ c ∈ yyClasses, ∃ t ∈ packedTables.nextState 1 c,
    t ≠ yyJam ∧ (yyMatcher.act t).isSome := by decide +kernel

theorem yyMatcher_act {s a : ℕ} (h : yyAccept[s]? = some a) :
    yyMatcher.act s = if a = 0 then none else some (a - 1) := by
  show (yyAccept[s]?).bind _ = _
  rw [h]; rfl

theorem yyMatcher_step_eq {s t : ℕ} {b : UInt8} (h : yyTables.nextState s (yyClass b) = some t) :
    yyMatcher.step s b = if t = yyJam then none else some t := by
  show (yyTables.nextState s (yyClass b)).bind _ = _
  rw [h]; rfl

theorem longest_isSome {w : List UInt8} (hw : w ≠ []) : (yyMatcher.longest w).isSome := by
  refine Matcher.longest_isSome (fun b ↦ ?_) hw
  obtain ⟨t, ht, hjam, hact⟩ := nextState_start _ (yyClass_mem b)
  obtain ⟨i, hi⟩ := Option.isSome_iff_exists.1 hact
  rw [← yyTables_eq] at ht
  exact ⟨t, i, (yyMatcher_step_eq ht).trans (if_neg hjam), hi⟩

/-! ## The cursor -/

/-- The cursor after a transition into state `t`. -/
def YyCursor.leave (k : YyCursor) (t : ℕ) : YyCursor :=
  if (yyMatcher.act k.state).isSome then ⟨t, k.cp + 1, k.state, k.cp⟩
  else ⟨t, k.cp + 1, k.lastState, k.lastCpos⟩

@[simp] theorem YyCursor.leave_state (k : YyCursor) (t : ℕ) : (k.leave t).state = t := by
  rw [leave]; split <;> rfl

@[simp] theorem YyCursor.leave_cp (k : YyCursor) (t : ℕ) : (k.leave t).cp = k.cp + 1 := by
  rw [leave]; split <;> rfl

theorem YyCursor.move_eq {k : YyCursor} {c t : ℕ} (hs : k.state ∈ yyStates)
    (ht : yyTables.nextState k.state c = some t) : k.move c = some (k.leave t) := by
  obtain ⟨a, ha⟩ := Option.isSome_iff_exists.1 (yyAccept_eq_some _ hs).1
  rw [move, ha, leave, yyMatcher_act ha]
  by_cases hz : a = 0
  · simp [hz, ht]
  · simp [hz, ht]

/-- The last match that the automaton knows of is the last accepting state of the cursor. -/
def LastMatch (bp m : ℕ) (l : Option (ℕ × ℕ)) (k : YyCursor) : Prop :=
  ∀ n i, l = some (n, i) →
    n ≤ m ∧ k.lastState ∈ yyStates ∧ yyMatcher.act k.lastState = some i ∧ k.lastCpos = bp + n

theorem LastMatch.mono {bp m m' : ℕ} {l : Option (ℕ × ℕ)} {k : YyCursor}
    (h : LastMatch bp m l k) (hm : m ≤ m') : LastMatch bp m' l k := fun n i hl ↦
  ⟨(h n i hl).1.trans hm, (h n i hl).2⟩

theorem LastMatch.leave {bp m : ℕ} {l : Option (ℕ × ℕ)} {k : YyCursor} (h : LastMatch bp m l k)
    (hcp : k.cp = bp + m) (hs : k.state ∈ yyStates) (t : ℕ) :
    LastMatch bp m (yyMatcher.lastMatch k.state m l) (k.leave t) := by
  intro n i hl
  rw [Matcher.lastMatch] at hl
  cases hact : yyMatcher.act k.state with
  | none =>
    rw [hact] at hl
    rw [YyCursor.leave, hact]
    exact h n i hl
  | some j =>
    rw [hact] at hl
    obtain ⟨rfl, rfl⟩ := Prod.mk.inj (Option.some.inj hl)
    rw [YyCursor.leave, hact]
    exact ⟨le_rfl, hs, hact, hcp⟩

/-- The automaton comes through the word. -/
def Readable (p : List UInt8) : Prop := (yyMatcher.trace 1 0 none p).isSome

/-- The cursor has read the word that starts at `bp`. -/
structure HasRead (bp : ℕ) (p : List UInt8) (k : YyCursor) : Prop where
  cp : k.cp = bp + p.length
  mem : k.state ∈ yyStates
  trace : ∃ l, yyMatcher.trace 1 0 none p = some (k.state, l) ∧ LastMatch bp p.length l k

theorem HasRead.readable {bp : ℕ} {p : List UInt8} {k : YyCursor} (h : HasRead bp p k) :
    Readable p := by
  obtain ⟨l, hl, -⟩ := h.trace
  rw [Readable, hl]; rfl

theorem HasRead.nil (bp : ℕ) (k : YyCursor) : HasRead bp [] { k with state := 1, cp := bp } :=
  ⟨rfl, mem_yyStates.2 (Or.inl rfl), none, rfl, nofun⟩

/-- One character more, or the jam. -/
theorem HasRead.move {bp : ℕ} {p : List UInt8} {k : YyCursor} (h : HasRead bp p k) (b : UInt8) :
    (yyMatcher.step k.state b = none ∧ k.move (yyClass b) = some (k.leave yyJam)) ∨
      ∃ t, yyMatcher.step k.state b = some t ∧ k.move (yyClass b) = some (k.leave t) ∧
        HasRead bp (p ++ [b]) (k.leave t) := by
  obtain ⟨t, ht, hcase⟩ := nextState_eq_some h.mem (yyClass_mem b)
  have hmove := YyCursor.move_eq h.mem ht
  have hstep := yyMatcher_step_eq ht
  rcases hcase with ⟨hjam, -⟩ | ⟨hjam, hmem, -⟩
  · rw [if_pos hjam] at hstep
    exact Or.inl ⟨hstep, hjam ▸ hmove⟩
  · rw [if_neg hjam] at hstep
    obtain ⟨l, hl, hlast⟩ := h.trace
    refine Or.inr ⟨t, hstep, hmove, ?_, by rwa [YyCursor.leave_state], _, ?_,
      (hlast.leave h.cp h.mem t).mono ?_⟩
    · rw [YyCursor.leave_cp, h.cp, List.length_append, List.length_singleton, Nat.add_assoc]
    · rw [Matcher.trace_append, hl, YyCursor.leave_state]
      show (yyMatcher.step k.state b).bind _ = _
      rw [hstep, Nat.zero_add]; rfl
    · rw [List.length_append]; omega

/-- A word that can be read is read on. -/
theorem HasRead.move_of_readable {bp : ℕ} {p x : List UInt8} {k : YyCursor} (h : HasRead bp p k)
    {b : UInt8} (hread : Readable (p ++ b :: x)) :
    ∃ k', k.move (yyClass b) = some k' ∧ HasRead bp (p ++ [b]) k' := by
  rcases h.move b with ⟨hstep, -⟩ | ⟨t, -, hmove, hk⟩
  · obtain ⟨l, hl, -⟩ := h.trace
    have hnone : yyMatcher.trace 1 0 none (p ++ b :: x) = none := by
      rw [Matcher.trace_append, hl]
      show (yyMatcher.step k.state b).bind _ = none
      rw [hstep]; rfl
    rw [Readable, hnone] at hread
    exact absurd hread Bool.false_ne_true
  · exact ⟨_, hmove, hk⟩

theorem yyGetPreviousState_spec {bp : ℕ} (x : List UInt8) {p : List UInt8} {k : YyCursor}
    (h : HasRead bp p k) (hread : Readable (p ++ x)) (rest : List UInt8) :
    ∃ k', yyGetPreviousState k x.length (x ++ rest) = some k' ∧ HasRead bp (p ++ x) k' := by
  induction x generalizing p k with
  | nil => exact ⟨k, rfl, by rwa [List.append_nil]⟩
  | cons b x ih =>
    obtain ⟨k', hmove, hk'⟩ := h.move_of_readable hread
    obtain ⟨k'', hprev, hk''⟩ := ih hk' (by rwa [List.append_assoc, List.singleton_append])
    rw [List.append_assoc, List.singleton_append] at hk''
    refine ⟨k'', ?_, hk''⟩
    rw [List.length_cons, List.cons_append, yyGetPreviousState]
    by_cases hz : b = 0
    · rw [if_neg (not_not.2 hz)]
      rw [hz, yyClass_zero] at hmove
      simpa [hmove] using hprev
    · rw [if_pos hz, yyEc_eq, if_neg hz]
      simpa [hmove] using hprev

/-! ## The longest match -/

/-- `yy_find_action` will find the longest match at the start of the text `w`, which starts at `bp`
and is in the buffer for `m` characters at least. -/
def Decided (bp m : ℕ) (w : List UInt8) (k : YyCursor) : Prop :=
  ∃ n i, yyMatcher.longest w = some (n, i) ∧ n ≤ m ∧
    ((k.state ∈ yyStates ∧ yyMatcher.act k.state = some i ∧ k.cp = bp + n) ∨
      (yyAccept[k.state]? = some 0 ∧ k.lastState ∈ yyStates ∧
        yyMatcher.act k.lastState = some i ∧ k.lastCpos = bp + n))

theorem Decided.mono {bp m m' : ℕ} {w : List UInt8} {k : YyCursor} (h : Decided bp m w k)
    (hm : m ≤ m') : Decided bp m' w k := by
  obtain ⟨n, i, hw, hn, hk⟩ := h
  exact ⟨n, i, hw, hn.trans hm, hk⟩

section

variable {bp : ℕ} {p v : List UInt8} {k : YyCursor}

/-- What has been read decides, when nothing longer can be matched. -/
theorem HasRead.longest_eq (h : HasRead bp p k) (hend : ∀ b, v.head? = some b →
    yyMatcher.step k.state b = none) : ∃ l, LastMatch bp p.length l k ∧
      yyMatcher.longest (p ++ v) = yyMatcher.lastMatch k.state p.length l := by
  obtain ⟨l, hl, hlast⟩ := h.trace
  refine ⟨l, hlast, ?_⟩
  show yyMatcher.scan 1 0 none (p ++ v) = _
  rw [Matcher.scan_of_trace hl, Nat.zero_add]
  cases v with
  | nil => rfl
  | cons b v => rw [Matcher.scan, hend b rfl]

/-- The automaton has jammed. -/
theorem HasRead.decided_jam (h : HasRead bp p k) {b : UInt8}
    (hstep : yyMatcher.step k.state b = none) :
    Decided bp p.length (p ++ b :: v) (k.leave yyJam) := by
  obtain ⟨l, hlast, hlong⟩ := h.longest_eq (v := b :: v) fun c hc ↦ Option.some.inj hc ▸ hstep
  obtain ⟨⟨n, i⟩, hni⟩ := Option.isSome_iff_exists.1 (longest_isSome (w := p ++ b :: v) (by simp))
  have hleave := hlast.leave h.cp h.mem yyJam n i (hlong.symm.trans hni)
  refine ⟨n, i, hni, hleave.1, Or.inr ⟨?_, hleave.2⟩⟩
  rw [YyCursor.leave_state]; rfl

/-- The cursor has stopped where it is. -/
theorem HasRead.decided_here (h : HasRead bp p k) (hne : p ++ v ≠ []) (hend : ∀ b,
    v.head? = some b → yyMatcher.step k.state b = none) : Decided bp p.length (p ++ v) k := by
  obtain ⟨l, hlast, hlong⟩ := h.longest_eq hend
  obtain ⟨⟨n, i⟩, hni⟩ := Option.isSome_iff_exists.1 (longest_isSome hne)
  have hmatch := hlong.symm.trans hni
  rw [Matcher.lastMatch] at hmatch
  cases hact : yyMatcher.act k.state with
  | some j =>
    rw [hact] at hmatch
    obtain ⟨rfl, rfl⟩ := Prod.mk.inj (Option.some.inj hmatch)
    exact ⟨_, _, hni, le_rfl, Or.inl ⟨h.mem, hact, h.cp⟩⟩
  | none =>
    rw [hact] at hmatch
    obtain ⟨hn, hk⟩ := hlast n i hmatch
    obtain ⟨a, ha⟩ := Option.isSome_iff_exists.1 (yyAccept_eq_some _ h.mem).1
    have hz : a = 0 := by
      by_contra hz
      rw [yyMatcher_act ha, if_neg hz] at hact
      cases hact
    exact ⟨n, i, hni, hn, Or.inr ⟨hz ▸ ha, hk⟩⟩

/-- The cursor goes back to where it was before the jam. -/
theorem HasRead.decided_back (h : HasRead bp p k) {b : UInt8}
    (hstep : yyMatcher.step k.state b = none) :
    Decided bp p.length (p ++ b :: v) { k.leave yyJam with state := k.state, cp := k.cp } := by
  obtain ⟨n, i, hlong, hn, hk⟩ := h.decided_here (v := b :: v) (by simp) fun c hc ↦
    Option.some.inj hc ▸ hstep
  refine ⟨n, i, hlong, hn, hk.imp id fun hlast ↦ ?_⟩
  have hact : yyMatcher.act k.state = none := (yyMatcher_act hlast.1).trans (if_pos rfl)
  rw [YyCursor.leave, hact]
  exact hlast

/-- Nothing leads out of a state with the row of the jam. -/
theorem HasRead.step_eq_none (h : HasRead bp p k) (hbase : yyBase[k.state]? = some 188)
    (b : UInt8) : yyMatcher.step k.state b = none := by
  have hjam := (jams_of_yyBase _ h.mem hbase).2 _ (yyClass_mem b)
  rw [← yyTables_eq] at hjam
  exact (yyMatcher_step_eq hjam).trans (if_pos rfl)

/-- The cursor has met a NUL behind `n` characters, and has gone on into the jam. -/
structure AtNul (bp n : ℕ) (k : YyCursor) : Prop where
  state : k.state = yyJam
  lastState : k.lastState = 3
  lastCpos : k.lastCpos = bp + n + 1

theorem yyMatch_nul (h : HasRead bp p k) (c : UInt8) (rest : List UInt8) :
    ∃ k', yyMatch k (0 :: c :: rest) = some k' ∧ AtNul bp p.length k' := by
  have hnul := nextState_nul _ h.mem
  rw [← yyTables_eq] at hnul
  have hmove := YyCursor.move_eq h.mem hnul
  obtain ⟨d, hc, hd⟩ : ∃ d, yyEc[c.toNat]? = some d ∧ d < 34 := by
    refine ⟨_, yyEc_eq c, ?_⟩
    have := (classSpec c).bounds
    split <;> omega
  have heob := nextState_eob d (List.mem_range.2 hd)
  rw [← yyTables_eq] at heob
  have hmove' : (k.leave 3).move d =
      some ⟨yyJam, (k.leave 3).cp + 1, 3, (k.leave 3).cp⟩ := by
    rw [YyCursor.move, YyCursor.leave_state]
    show (yyTables.nextState 3 d).bind _ = _
    rw [heob]; rfl
  refine ⟨⟨yyJam, (k.leave 3).cp + 1, 3, (k.leave 3).cp⟩, ?_, rfl, rfl, ?_⟩
  rotate_left
  · show (k.leave 3).cp = _
    rw [YyCursor.leave_cp, h.cp]
  · rw [yyMatch, yyEc_eq, if_pos rfl]
    show (k.move 0).bind _ = _
    rw [hmove, Option.bind_some, YyCursor.leave_state]
    show yyMatch (k.leave 3) (c :: rest) = _
    rw [yyMatch, hc]
    show ((k.leave 3).move d).bind _ = _
    rw [hmove']; rfl

end

/-- **`yy_match`** either decides on the longest match, or comes to a NUL. -/
theorem yyMatch_spec {bp : ℕ} (rest : List UInt8) {p : List UInt8} {k : YyCursor}
    (h : HasRead bp p k) (junk v : List UInt8) :
    ∃ k', yyMatch k (rest ++ 0 :: 0 :: junk) = some k' ∧
      (Decided bp (p ++ rest).length (p ++ rest ++ v) k' ∨
        ∃ q q', rest = q ++ q' ∧ (q' = [] ∨ ∃ z, q' = 0 :: z) ∧ Readable (p ++ q) ∧
          AtNul bp (p ++ q).length k') := by
  induction rest generalizing p k with
  | nil =>
    obtain ⟨k', hk', hnul⟩ := yyMatch_nul h 0 junk
    refine ⟨k', hk', Or.inr ⟨[], [], rfl, Or.inl rfl, ?_⟩⟩
    rw [List.append_nil]
    exact ⟨h.readable, hnul⟩
  | cons b rest ih =>
    by_cases hz : b = 0
    · obtain ⟨c, cs, hcs⟩ : ∃ c cs, rest ++ 0 :: 0 :: junk = c :: cs := by
        cases rest with
        | nil => exact ⟨_, _, rfl⟩
        | cons c rest => exact ⟨c, _, rfl⟩
      obtain ⟨k', hk', hnul⟩ := yyMatch_nul h c cs
      refine ⟨k', ?_, Or.inr ⟨[], b :: rest, rfl, Or.inr ⟨rest, by rw [hz]⟩, ?_⟩⟩
      · rw [List.cons_append, hz, hcs, hk']
      · rw [List.append_nil]
        exact ⟨h.readable, hnul⟩
    · have hstep : ∀ k', k.move (yyClass b) = some k' →
          yyMatch k (b :: rest ++ 0 :: 0 :: junk) = (yyBase[k'.state]?).bind fun base ↦
            if base ≠ 188 then yyMatch k' (rest ++ 0 :: 0 :: junk) else some k' := by
        intro k' hk'
        rw [List.cons_append, yyMatch, yyEc_eq, if_neg hz]
        show (k.move (yyClass b)).bind _ = _
        rw [hk']; rfl
      rcases h.move b with ⟨hjam, hmove⟩ | ⟨t, -, hmove, hk⟩
      · refine ⟨k.leave yyJam, ?_, Or.inl ?_⟩
        · rw [hstep _ hmove, YyCursor.leave_state]; rfl
        · rw [List.append_assoc, List.cons_append]
          exact (h.decided_jam hjam).mono (by rw [List.length_append]; omega)
      · obtain ⟨base, hbase⟩ := Option.isSome_iff_exists.1 (yyBase_eq_some _ hk.mem)
        have hshift : p ++ b :: rest = p ++ [b] ++ rest := by simp
        rw [hstep _ hmove, hbase, Option.bind_some]
        by_cases hfinal : base = 188
        · rw [if_neg (not_not.2 hfinal)]
          refine ⟨_, rfl, Or.inl ?_⟩
          rw [hfinal] at hbase
          have hhere := hk.decided_here (v := rest ++ v) (by simp) fun c _ ↦
            hk.step_eq_none hbase c
          rw [← List.append_assoc, ← hshift] at hhere
          exact hhere.mono (by
            simp only [List.length_append, List.length_cons, List.length_nil]; omega)
        · rw [if_pos hfinal]
          obtain ⟨k', hk', hcase⟩ := ih hk
          refine ⟨k', hk', hcase.imp (fun hd ↦ by rwa [hshift]) ?_⟩
          rintro ⟨q, q', rfl, hq', hread, hnul⟩
          refine ⟨b :: q, q', rfl, hq', ?_⟩
          have hshift' : p ++ b :: q = p ++ [b] ++ q := by simp
          rw [hshift']
          exact ⟨hread, hnul⟩

/-! ## Writing into the buffer -/

theorem put_eq {buf : List UInt8} {i : ℕ} (h : i < buf.length) (b : UInt8) :
    put buf i b = some (buf.set i b) :=
  if_pos h

theorem putAll_eq (bs : List UInt8) {buf : List UInt8} {i : ℕ}
    (h : i + bs.length ≤ buf.length) :
    putAll bs i buf = some (buf.take i ++ bs ++ buf.drop (i + bs.length)) := by
  induction bs generalizing i buf with
  | nil => simp [putAll]
  | cons b bs ih =>
    rw [List.length_cons] at h
    have hset : (buf.set i b).take (i + 1) = buf.take i ++ [b] := by
      rw [List.take_add_one, List.take_set_of_le le_rfl, List.getElem?_set_self (by omega)]; rfl
    rw [putAll, put_eq (by omega), Option.bind_eq_bind, Option.bind_some,
      ih (by rw [List.length_set]; omega), hset, List.drop_set_of_lt (by omega)]
    simp [Nat.add_assoc, Nat.add_comm 1]

theorem yyMoveDown_eq (source n : ℕ) {i : ℕ} {buf : List UInt8}
    (h : source + i + n ≤ buf.length) :
    yyMoveDown source n i buf =
      some (buf.take i ++ (buf.drop (source + i)).take n ++ buf.drop (i + n)) := by
  induction n generalizing i buf with
  | zero => simp [yyMoveDown]
  | succ n ih =>
    have hlt : source + i < buf.length := by omega
    have hset : (buf.set i buf[source + i]).take (i + 1) = buf.take i ++ [buf[source + i]] := by
      rw [List.take_add_one, List.take_set_of_le le_rfl, List.getElem?_set_self (by omega)]; rfl
    have hdrop : (buf.drop (source + i)).take (n + 1) =
        buf[source + i] :: (buf.drop (source + (i + 1))).take n := by
      rw [List.drop_eq_getElem_cons hlt, List.take_succ_cons, Nat.add_assoc]
    rw [yyMoveDown, List.getElem?_eq_getElem hlt, Option.bind_eq_bind, Option.bind_some,
      put_eq (by omega), Option.bind_eq_bind, Option.bind_some,
      ih (by rw [List.length_set]; omega), hset, hdrop, List.drop_set_of_lt (by omega),
      List.drop_set_of_lt (by omega)]
    simp [Nat.add_assoc, Nat.add_comm 1]

/-- What is read is the next part of the file, and nothing only at its end. -/
theorem yyInput_spec (env : YyEnv) {maxSize : ℕ} (hmax : 0 < maxSize) (yyin : List UInt8) :
    yyInput env maxSize yyin <+: yyin ∧ (yyInput env maxSize yyin).length ≤ maxSize ∧
      (yyInput env maxSize yyin = [] → yyin = []) := by
  have htake : yyin.take maxSize = [] → yyin = [] := fun h ↦
    (List.take_eq_nil_iff.1 h).resolve_left hmax.ne'
  rw [yyInput]
  split
  · have hline := List.takeWhile_prefix (l := yyin.take maxSize) (· ≠ newline)
    generalize hl : (yyin.take maxSize).takeWhile (· ≠ newline) = line at hline ⊢
    dsimp only
    split
    · next hnl =>
      have hpre : line ++ [newline] <+: yyin.take maxSize := by
        obtain ⟨rest, hrest⟩ := hline
        rw [← hrest, List.getElem?_append_right le_rfl, Nat.sub_self] at hnl
        cases rest with
        | nil => exact nomatch hnl
        | cons c rest =>
          obtain rfl : c = newline := by simpa using hnl
          exact ⟨rest, by rw [← hrest]; simp⟩
      exact ⟨hpre.trans (List.take_prefix _ _), hpre.length_le.trans (List.length_take_le _ _),
        fun h ↦ absurd h (by simp)⟩
    · next hnl =>
      refine ⟨hline.trans (List.take_prefix _ _),
        hline.length_le.trans (List.length_take_le _ _), fun h ↦ htake ?_⟩
      subst h
      cases htext : yyin.take maxSize with
      | nil => rfl
      | cons c cs =>
        rw [htext] at hl hnl
        have hc : c = newline := by
          by_contra hc
          rw [List.takeWhile_cons_of_pos (by simpa using hc)] at hl
          exact nomatch hl
        exact absurd (by rw [hc]; rfl) hnl
  · exact ⟨List.take_prefix _ _, List.length_take_le _ _, htake⟩

/-- The buffer grows until there is room. -/
theorem yyGrow_spec {numberToMove : ℕ} (hmove : numberToMove + 1 < 2 ^ 30) :
    ∀ rounds size, 0 < size → numberToMove + 2 ≤ size + rounds → ∃ size',
      yyGrow numberToMove (rounds + 1) size = some size' ∧ numberToMove + 1 < size' ∧ size ≤ size'
  | 0, size, _, h => ⟨size, if_pos (by omega), by omega, le_rfl⟩
  | rounds + 1, size, hpos, h => by
    by_cases hfit : numberToMove + 1 < size
    · exact ⟨size, if_pos hfit, hfit, le_rfl⟩
    · obtain ⟨size', hgrow, hroom, hle⟩ :=
        yyGrow_spec hmove rounds (2 * size) (by omega) (by omega)
      refine ⟨size', ?_, hroom, by omega⟩
      rw [yyGrow, if_neg hfit, if_neg (by omega)]
      exact hgrow

/-! ## The buffer -/

/-- From `pos` on the buffer holds the characters `rest`, then its end; the file has been read no
further than that. -/
structure Buffered (y : Yy) (pos : ℕ) (rest : List UInt8) : Prop where
  size : y.chBuf.length = y.bufSize + 2
  room : 0 < y.bufSize
  text : ∃ junk, y.chBuf.drop pos = rest ++ 0 :: 0 :: junk
  count : y.nChars = pos + rest.length
  new : y.status = .new → y.nChars = 0 ∧ y.bufNChars = 0
  eof : y.status = .eofPending → y.yyin = []

theorem Buffered.fits {y : Yy} {pos : ℕ} {rest : List UInt8} (h : Buffered y pos rest) :
    pos + rest.length ≤ y.bufSize := by
  obtain ⟨junk, hjunk⟩ := h.text
  have hlen := congrArg List.length hjunk
  rw [List.length_drop, List.length_append, List.length_cons, List.length_cons, h.size] at hlen
  omega

/-- The scanner before it reads a file, whatever it has read before. -/
structure Fresh (y : Yy) : Prop where
  size : y.chBuf.length = y.bufSize + 2
  room : 0 < y.bufSize
  text : ∃ junk, y.chBuf = 0 :: 0 :: junk
  status : y.status = .new
  nChars : y.nChars = 0
  bufNChars : y.bufNChars = 0
  cBufP : y.cBufP = 0
  holdChar : y.holdChar = 0

/-- The read puts the next part of the file, if there is one, behind the token. -/
theorem yyRead_spec (env : YyEnv) {y : Yy} {p : List UInt8} (hsize : y.chBuf.length = y.bufSize + 2)
    (hroom : 0 < y.bufSize) (htake : y.chBuf.take p.length = p) (hfits : p.length ≤ y.bufSize)
    (hp : p.length + 1 < 2 ^ 30) (heof : y.status = .eofPending → y.yyin = []) :
    ∃ y' chunk, yyRead env y p.length = some y' ∧ y.yyin = chunk ++ y'.yyin ∧
      (chunk = [] → y.yyin = []) ∧ y'.nChars = chunk.length ∧ y'.status = y.status ∧
      y'.chBuf.length = y'.bufSize + 2 ∧ 0 < y'.bufSize ∧
      y'.chBuf.take (p.length + chunk.length) = p ++ chunk ∧
      p.length + chunk.length ≤ y'.bufSize := by
  rw [yyRead]
  by_cases hpend : y.status = .eofPending
  · rw [if_pos hpend]
    exact ⟨_, [], rfl, rfl, fun _ ↦ heof hpend, rfl, rfl, hsize, hroom, by simpa using htake,
      by simpa using hfits⟩
  · rw [if_neg hpend]
    obtain ⟨size, hgrow, hfit, hle⟩ :=
      yyGrow_spec hp (p.length + 1) y.bufSize hroom (by omega)
    obtain ⟨hpre, hmax, hnil⟩ := yyInput_spec env
      (lt_min (by decide) (by omega) : 0 < min 8192 (size - p.length - 1)) y.yyin
    rw [hgrow, Option.bind_eq_bind, Option.bind_some]
    dsimp only
    generalize yyInput env (min 8192 (size - p.length - 1)) y.yyin = chunk at hpre hmax hnil ⊢
    generalize hbuf : y.chBuf ++ List.replicate (size - y.bufSize) env.junk = buf
    have hroom' : chunk.length ≤ size - p.length - 1 := hmax.trans (min_le_right _ _)
    have hlen : buf.length = size + 2 := by
      rw [← hbuf, List.length_append, List.length_replicate]; omega
    have htake' : buf.take p.length = p := by
      rw [← hbuf, List.take_append_of_le_length (by omega), htake]
    rw [putAll_eq chunk (by omega), htake']
    refine ⟨_, chunk, rfl, List.prefix_append_drop hpre, hnil, rfl, rfl, ?_, hroom.trans_le hle,
      List.take_left' (by rw [List.length_append]), ?_⟩
    · simp only [List.length_append, List.length_drop, hlen]; omega
    · dsimp only; omega

/-- The end of the buffer is marked behind the characters that are in it. -/
theorem Yy.markEnd_spec (env : YyEnv) {y : Yy} {n : ℕ} {x : List UInt8}
    (hsize : y.chBuf.length = y.bufSize + 2) (hle : y.nChars + n ≤ y.bufSize)
    (htake : y.chBuf.take (y.nChars + n) = x) :
    ∃ junk, (x ++ 0 :: 0 :: junk).length = y.bufSize + 2 ∧ y.markEnd env n = some { y with
      chBuf := x ++ 0 :: 0 :: junk, nChars := y.nChars + n, textPtr := 0 } := by
  have hroom : y.nChars + n + [(0 : UInt8), 0].length ≤ y.chBuf.length := by
    rw [hsize]; exact Nat.add_le_add_right hle 2
  have hput := putAll_eq [0, 0] hroom
  rw [htake] at hput
  obtain ⟨buf, hbuf, hput⟩ := Option.bind_eq_some_iff.1 hput
  obtain ⟨buf', hbuf', hput⟩ := Option.bind_eq_some_iff.1 hput
  have hx : x.length = y.nChars + n := by
    rw [← htake, List.length_take, Nat.min_eq_left (by omega)]
  refine ⟨y.chBuf.drop (y.nChars + n + 2), ?_, ?_⟩
  · simp only [List.length_append, List.length_cons, List.length_drop, hx, hsize]; omega
  · rw [Yy.markEnd, if_neg (not_lt.2 hle), hbuf, Option.bind_eq_bind,
      Option.bind_some, hbuf', Option.bind_some, Option.some.inj hput]
    simp

theorem yyRestart_spec {y : Yy} (hsize : y.chBuf.length = y.bufSize + 2) (hroom : 0 < y.bufSize) :
    ∃ y', yyRestart y = some y' ∧ Fresh y' := by
  obtain ⟨a, b, junk, hbuf⟩ : ∃ a b junk, y.chBuf = a :: b :: junk := by
    match hbuf : y.chBuf with
    | [] | [_] => rw [hbuf] at hsize; simp at hsize
    | a :: b :: junk => exact ⟨a, b, junk, rfl⟩
  rw [yyRestart, hbuf]
  rw [hbuf] at hsize
  exact ⟨_, rfl, hsize, hroom, ⟨junk, rfl⟩, rfl, rfl, rfl, rfl, rfl⟩

/-- **`yy_get_next_buffer`**: the token moves to the front, and more of the file comes behind it;
at the end of the file there is nothing more to come. -/
theorem yyGetNextBuffer_spec (env : YyEnv) {y : Yy} {p : List UInt8}
    (h : Buffered y y.textPtr p) (hnew : y.status ≠ .new) (hp : p.length + 1 < 2 ^ 30)
    (hcp : y.cBufP = y.textPtr + p.length + 1) :
    (∃ y', yyGetNextBuffer env y = some (.endOfFile, y') ∧ p = [] ∧ y.yyin = [] ∧
      y'.textPtr = 0 ∧ Fresh y') ∨
    (∃ y', yyGetNextBuffer env y = some (.lastMatch, y') ∧ p ≠ [] ∧ y.yyin = [] ∧
      y'.yyin = [] ∧ y'.textPtr = 0 ∧ Buffered y' 0 p) ∨
    (∃ y' chunk, yyGetNextBuffer env y = some (.continueScan, y') ∧ chunk ≠ [] ∧
      y.yyin = chunk ++ y'.yyin ∧ y'.textPtr = 0 ∧ Buffered y' 0 (p ++ chunk)) := by
  obtain ⟨junk, hjunk⟩ := h.text
  have hfits := h.fits
  have hmove : y.cBufP - y.textPtr - 1 = p.length := by omega
  have hdown : yyMoveDown y.textPtr p.length 0 y.chBuf = some (p ++ y.chBuf.drop p.length) := by
    rw [yyMoveDown_eq _ _ (by rw [h.size]; omega), Nat.add_zero, Nat.zero_add, hjunk,
      List.take_left, List.take_zero, List.nil_append]
  have hlen : (p ++ y.chBuf.drop p.length).length = y.bufSize + 2 := by
    rw [List.length_append, List.length_drop, h.size]; omega
  obtain ⟨y', chunk, hread, hyyin, hnil, hn, hstatus, hsize, hroom, htake, hle⟩ :=
    yyRead_spec env (y := { y with chBuf := p ++ y.chBuf.drop p.length }) hlen h.room
      List.take_left (by dsimp only; omega) hp h.eof
  dsimp only at hyyin hnil hstatus
  have hcalls : yyGetNextBuffer env y = (y'.eobAct p.length).bind fun r ↦
      (r.2.markEnd env p.length).map (r.1, ·) := by
    rw [yyGetNextBuffer, if_neg (by rw [h.count, hcp]; omega)]
    dsimp only
    rw [hmove, hdown, Option.bind_eq_bind, Option.bind_some, hread, Option.bind_eq_bind,
      Option.bind_some]
    refine Option.bind_congr fun r _ ↦ ?_
    cases r.2.markEnd env p.length <;> rfl
  have hsum : y'.nChars + p.length = p.length + chunk.length := by omega
  obtain ⟨junk', hlen', hmark⟩ := Yy.markEnd_spec env hsize (hsum ▸ hle) (hsum ▸ htake)
  rw [hcalls, Yy.eobAct]
  by_cases hchunk : chunk = []
  · have hend : y.yyin = [] := hnil hchunk
    have hend' : y'.yyin = [] := (List.append_eq_nil_iff.1 (hyyin.symm.trans hend)).2
    rw [if_pos (by rw [hn, hchunk]; rfl)]
    by_cases hpnil : p = []
    · obtain ⟨y₁, hrestart, hfresh⟩ := yyRestart_spec hsize hroom
      have hp0 : p.length = 0 := by rw [hpnil]; rfl
      obtain ⟨junk₁, hlen₁, hmark₁⟩ := Yy.markEnd_spec env (n := 0) (x := []) hfresh.size
        (by rw [hfresh.nChars]; omega) (by rw [hfresh.nChars]; rfl)
      rw [if_pos hp0, hrestart, Option.map_some, Option.bind_some, hp0, hmark₁]
      exact Or.inl ⟨_, rfl, hpnil, hend, rfl, hlen₁, hfresh.room, ⟨junk₁, rfl⟩, hfresh.status,
        hfresh.nChars, hfresh.bufNChars, hfresh.cBufP, hfresh.holdChar⟩
    · have hp0 : p.length ≠ 0 := mt List.length_eq_zero_iff.1 hpnil
      obtain ⟨junk₁, hlen₁, hmark₁⟩ := Yy.markEnd_spec env
        (y := { y' with status := .eofPending }) hsize (hsum ▸ hle) (hsum ▸ htake)
      rw [if_neg hp0, Option.bind_some, hmark₁]
      refine Or.inr (Or.inl ⟨_, rfl, hpnil, hend, hend', rfl, hlen₁, hroom, ⟨junk₁, ?_⟩, ?_, nofun,
        fun _ ↦ hend'⟩)
      · rw [hchunk, List.append_nil]; rfl
      · rw [hn, hchunk, List.length_nil]
  · have hchunk0 : y'.nChars ≠ 0 := by rwa [hn, ne_eq, List.length_eq_zero_iff]
    rw [if_neg hchunk0, Option.bind_some, hmark]
    refine Or.inr (Or.inr ⟨_, chunk, rfl, hchunk, hyyin, rfl, hlen', hroom, ⟨junk', rfl⟩, ?_,
      fun hs ↦ absurd (hstatus ▸ hs) hnew, fun hs ↦ ?_⟩)
    · rw [hsum, List.length_append, Nat.zero_add]
    · exact absurd (List.append_eq_nil_iff.1 (hyyin.symm.trans (h.eof (hstatus ▸ hs)))).1 hchunk

/-! ## At the labels -/

section

variable (env : YyEnv) {y : Yy} {w p : List UInt8}

/-- At the head of the loop, with the text `w` to be read; `yy_hold_char` stands where
`YY_DO_BEFORE_ACTION` has put a NUL. -/
def AtLoop (y : Yy) (w : List UInt8) : Prop :=
  ∃ rest, Buffered { y with chBuf := y.chBuf.set y.cBufP y.holdChar } y.cBufP rest ∧
    w = rest ++ y.yyin

/-- At `yy_match`, in the middle of a token. -/
def AtMatch (y : Yy) (w p : List UInt8) : Prop :=
  ∃ rest, Buffered y y.bp (p ++ rest) ∧ w = p ++ rest ++ y.yyin ∧ HasRead y.bp p y.cursor

/-- At `yy_find_action`, with the longest match found. -/
def AtFind (y : Yy) (w : List UInt8) : Prop :=
  ∃ rest, Buffered y y.bp rest ∧ w = rest ++ y.yyin ∧ Decided y.bp rest.length w y.cursor

/-- At `yy_find_action`, with a NUL of the text or the end of the buffer behind what has been
read. -/
def AtEob (y : Yy) (w p : List UInt8) : Prop :=
  ∃ rest, Buffered y y.bp (p ++ rest) ∧ w = p ++ rest ++ y.yyin ∧
    (rest = [] ∨ ∃ z, rest = 0 :: z) ∧ Readable p ∧ AtNul y.bp p.length y.cursor

theorem Buffered.lt_length {pos : ℕ} {rest : List UInt8} (h : Buffered y pos rest) {i : ℕ}
    (hi : i ≤ rest.length + 1) : pos + i < y.chBuf.length := by
  have := h.fits
  rw [h.size]; omega

theorem AtLoop.step (h : AtLoop y w) :
    ∃ y', yyStep env y .loop = some (.yyMatch, y', none) ∧ AtMatch y' w [] ∧ y'.yyin = y.yyin := by
  obtain ⟨rest, hbuf, hw⟩ := h
  have hlt : y.cBufP < y.chBuf.length := by
    have := hbuf.lt_length (Nat.zero_le _)
    rwa [Nat.add_zero, List.length_set] at this
  refine ⟨{ y with
    chBuf := y.chBuf.set y.cBufP y.holdChar, bp := y.cBufP,
    cursor := { y.cursor with state := 1, cp := y.cBufP } }, ?_,
    ⟨rest, { hbuf with }, hw, HasRead.nil y.cBufP y.cursor⟩, rfl⟩
  rw [yyStep, put_eq hlt]; rfl

theorem AtMatch.step (h : AtMatch y w p) :
    ∃ y', yyStep env y .yyMatch = some (.findAction, y', none) ∧ y'.yyin = y.yyin ∧
      (AtFind y' w ∨ ∃ q, p.length ≤ q.length ∧ AtEob y' w q) := by
  obtain ⟨rest, hbuf, hw, hread⟩ := h
  obtain ⟨junk, hjunk⟩ := hbuf.text
  have hdrop : y.chBuf.drop y.cursor.cp = rest ++ 0 :: 0 :: junk := by
    rw [hread.cp, ← List.drop_drop, hjunk, List.append_assoc, List.drop_left]
  obtain ⟨k, hk, hcase⟩ := yyMatch_spec rest hread junk y.yyin
  refine ⟨{ y with cursor := k }, ?_, rfl, ?_⟩
  · rw [yyStep, hdrop, hk]; rfl
  · rcases hcase with hdec | ⟨q, q', rfl, hq', hreadable, hnul⟩
    · exact Or.inl ⟨p ++ rest, { hbuf with }, hw, hw ▸ hdec⟩
    · refine Or.inr ⟨p ++ q, by rw [List.length_append]; omega, q',
        { hbuf with text := ?_, count := ?_ }, ?_, hq', hreadable, hnul⟩
      · exact ⟨junk, by rw [List.append_assoc p q q']; exact hjunk⟩
      · rw [List.append_assoc]; exact hbuf.count
      · rw [hw]; simp

theorem yyAction_eq (yytext : List UInt8) {i : ℕ} {r : Rule UInt8 Token}
    (hr : rules[i]? = some r) :
    ∃ code, yyAction yytext (i + 1) = some (r.action yytext, code) ∧ code ≠ some 0 := by
  have hi : i < 19 := (List.getElem?_eq_some_iff.1 hr).1
  interval_cases i <;> obtain rfl := Option.some.inj hr <;> exact ⟨_, rfl, by decide⟩

theorem Yy.findAction_eq {a : ℕ} (ha : yyAccept[y.cursor.state]? = some a) {k : YyCursor}
    (hk : k = if a ≠ 0 then y.cursor
      else { y.cursor with state := y.cursor.lastState, cp := y.cursor.lastCpos })
    {act : ℕ} (hact : yyAccept[k.state]? = some act) (hlt : k.cp < y.chBuf.length) :
    y.findAction = some (act, { y with
      chBuf := y.chBuf.set k.cp 0, textPtr := y.bp, holdChar := y.chBuf[k.cp], cBufP := k.cp,
      cursor := k }) := by
  rw [Yy.findAction, ha, Option.bind_eq_bind, Option.bind_some, ← hk]
  dsimp only
  rw [hact, Option.bind_some, List.getElem?_eq_getElem hlt, Option.bind_eq_bind, Option.bind_some,
    put_eq hlt]
  rfl

/-- What the cursor has decided on is found by `yy_find_action`. -/
theorem Decided.findAction {m : ℕ} (h : Decided y.bp m w y.cursor)
    (hlt : ∀ n ≤ m, y.bp + n < y.chBuf.length) :
    ∃ n i k hold, yyMatcher.longest w = some (n, i) ∧ n ≤ m ∧ y.chBuf[y.bp + n]? = some hold ∧
      k.cp = y.bp + n ∧ y.findAction = some (i + 1, { y with
        chBuf := y.chBuf.set (y.bp + n) 0, textPtr := y.bp, holdChar := hold,
        cBufP := y.bp + n, cursor := k }) := by
  obtain ⟨n, i, hlong, hn, hk⟩ := h
  have accepts : ∀ s ∈ yyStates, yyMatcher.act s = some i → yyAccept[s]? = some (i + 1) := by
    intro s hs hact
    obtain ⟨a, ha⟩ := Option.isSome_iff_exists.1 (yyAccept_eq_some s hs).1
    rw [yyMatcher_act ha] at hact
    split at hact
    · exact nomatch hact
    · rw [ha, ← Option.some.inj hact]
      exact congrArg some (by omega)
  have hbp := hlt n hn
  have hhold := List.getElem?_eq_getElem hbp
  rcases hk with ⟨hs, hact, hcp⟩ | ⟨hzero, hs, hact, hcp⟩
  · have haccept := accepts _ hs hact
    have hfind := Yy.findAction_eq (y := y) haccept (k := y.cursor) (by simp) haccept (by omega)
    refine ⟨n, i, y.cursor, _, hlong, hn, hhold, hcp, hfind.trans ?_⟩
    simp only [hcp]
  · have haccept := accepts _ hs hact
    have hfind := Yy.findAction_eq (y := y) hzero
      (k := { y.cursor with state := y.cursor.lastState, cp := y.cursor.lastCpos })
      (by simp) haccept (by dsimp only; omega)
    refine ⟨n, i, { y.cursor with state := y.cursor.lastState, cp := y.cursor.lastCpos }, _,
      hlong, hn, hhold, hcp, hfind.trans ?_⟩
    simp only [hcp]

/-- The action of the rule with the longest match: the token is cut off, and the loop goes on behind
it. -/
theorem AtFind.step (h : AtFind y w) :
    ∃ y' token n, yyStep env y .findAction = some (.loop, y', token) ∧
      (w.drop n).length < w.length ∧ AtLoop y' (w.drop n) ∧
      tokens w = token.toList ++ tokens (w.drop n) := by
  obtain ⟨rest, hbuf, hw, hdec⟩ := h
  obtain ⟨junk, hjunk⟩ := hbuf.text
  obtain ⟨n, i, k, hold, hlong, hn, hhold, hcp, hfind⟩ :=
    hdec.findAction fun n hn ↦ hbuf.lt_length (by omega)
  obtain ⟨r, hr, hpos, hle, hlex⟩ := yyMatcher_knows.lex_eq hlong
  have hi : i + 1 ≠ yyEndOfBuffer := by
    have : i < 19 := (List.getElem?_eq_some_iff.1 hr).1
    rw [yyEndOfBuffer]; omega
  have htext : ((y.chBuf.set (y.bp + n) 0).drop y.bp).take (k.cp - y.bp) = w.take n := by
    rw [hcp, Nat.add_sub_cancel_left, List.drop_set, if_neg (by omega), Nat.add_sub_cancel_left,
      List.take_set_of_le le_rfl, hjunk, hw, List.take_append_of_le_length hn,
      List.take_append_of_le_length hn]
  obtain ⟨code, haction, hcode⟩ := yyAction_eq (w.take n) hr
  refine ⟨{ y with
    chBuf := y.chBuf.set (y.bp + n) 0, textPtr := y.bp, holdChar := hold, cBufP := y.bp + n,
    cursor := k }, r.action (w.take n), n, ?_, ?_, ⟨rest.drop n, ?_, ?_⟩, hlex⟩
  · rw [yyStep, hfind, Option.bind_eq_bind, Option.bind_some]
    dsimp only
    rw [if_neg hi, htext, haction, Option.bind_eq_bind, Option.bind_some]
    dsimp only
    rw [if_neg hcode]
  · rw [List.length_drop]; omega
  · have hback : (y.chBuf.set (y.bp + n) 0).set (y.bp + n) hold = y.chBuf := by
      rw [List.set_set]
      obtain ⟨hlt, rfl⟩ := List.getElem?_eq_some_iff.1 hhold
      exact List.set_getElem_self hlt
    refine { hbuf with size := ?_, text := ?_, count := ?_ }
    · rw [hback]; exact hbuf.size
    · refine ⟨junk, ?_⟩
      rw [hback, ← List.drop_drop, hjunk, List.drop_append_of_le_length hn]
    · have := hbuf.count
      rw [List.length_drop]
      dsimp only
      omega
  · rw [hw, List.drop_append_of_le_length hn]

theorem Yy.previousState_spec {rest : List UInt8} (hbuf : Buffered y y.textPtr (p ++ rest))
    (hread : Readable p) (hcp : y.cBufP = y.textPtr + p.length) :
    ∃ k, y.previousState = some { y with cursor := k, bp := y.textPtr } ∧
      HasRead y.textPtr p k := by
  obtain ⟨junk, hjunk⟩ := hbuf.text
  obtain ⟨k, hk, hhas⟩ := yyGetPreviousState_spec p (HasRead.nil y.textPtr y.cursor)
    (by rwa [List.nil_append]) (rest ++ 0 :: 0 :: junk)
  refine ⟨k, ?_, hhas⟩
  rw [Yy.previousState, hcp, Nat.add_sub_cancel_left, hjunk, List.append_assoc, hk]; rfl

/-- A NUL of the text is read like any other byte. -/
theorem Yy.nul_spec {z : List UInt8} (hbuf : Buffered y y.textPtr (p ++ 0 :: z))
    (hread : Readable p) (hcp : y.cBufP = y.textPtr + p.length)
    (hw : w = p ++ 0 :: z ++ y.yyin) :
    ∃ label y', y.nul = some (label, y') ∧ y'.yyin = y.yyin ∧
      (label = .yyMatch ∧ AtMatch y' w (p ++ [0]) ∨ label = .findAction ∧ AtFind y' w) := by
  obtain ⟨k, hk, hhas⟩ := Yy.previousState_spec hbuf hread hcp
  have hsame : { k with cp := y.cBufP } = k := by rw [hcp, ← hhas.cp]
  rw [Yy.nul, hk, Option.bind_eq_bind, Option.bind_some]
  dsimp only
  rw [hsame]
  rcases hhas.move 0 with ⟨hjam, hmove⟩ | ⟨t, -, hmove, hnext⟩
  · rw [yyClass_zero] at hmove
    rw [hmove, Option.bind_eq_bind, Option.bind_some,
      if_neg (not_not.2 (YyCursor.leave_state k yyJam))]
    refine ⟨_, { y with
      bp := y.textPtr, cursor := { k.leave yyJam with state := k.state, cp := y.cBufP } }, rfl, rfl,
      Or.inr ⟨rfl, p ++ 0 :: z, { hbuf with }, hw, ?_⟩⟩
    have hdec := hhas.decided_back (v := z ++ y.yyin) hjam
    rw [← List.cons_append, ← List.append_assoc, ← hw, hhas.cp, ← hcp] at hdec
    exact hdec.mono (by rw [List.length_append]; omega)
  · have hne : (k.leave t).state ≠ yyJam := by
      have := mem_yyStates.1 hnext.mem
      rw [yyJam]; omega
    have hsame' : { k.leave t with cp := y.cBufP + 1 } = k.leave t := by
      rw [hcp, ← hhas.cp, ← YyCursor.leave_cp k t]
    rw [yyClass_zero] at hmove
    rw [hmove, Option.bind_eq_bind, Option.bind_some, if_pos hne, hsame']
    refine ⟨_, { y with cBufP := y.cBufP + 1, bp := y.textPtr, cursor := k.leave t }, rfl, rfl,
      Or.inl ⟨rfl, z, { hbuf with text := ?_, count := ?_ }, ?_, hnext⟩⟩
    · rw [List.append_assoc]; exact hbuf.text
    · rw [List.append_assoc]; exact hbuf.count
    · rw [hw, List.append_assoc p [0] z]; rfl

/-- The end of the buffer is the end of the text, or there is more to read. -/
theorem Yy.refill_spec (hbuf : Buffered y y.textPtr p) (hnew : y.status ≠ .new)
    (hread : Readable p) (hcp : y.cBufP = y.textPtr + p.length + 1) (hw : w = p ++ y.yyin)
    (hlen : w.length + 1 < 2 ^ 30) :
    ∃ label y', y.refill env p.length = some (label, y') ∧
      ((label = .returned ∧ w = [] ∧ Fresh y') ∨ (label = .findAction ∧ AtFind y' w) ∨
        (label = .yyMatch ∧ AtMatch y' w p ∧ y'.yyin.length < y.yyin.length)) := by
  have hp : p.length + 1 < 2 ^ 30 := by
    rw [hw, List.length_append] at hlen; omega
  rw [Yy.refill]
  rcases yyGetNextBuffer_spec env hbuf hnew hp hcp with ⟨y', hnext, hpnil, hend, htext, hfresh⟩ |
    ⟨y', hnext, hpne, hend, hend', htext, hbuf'⟩ | ⟨y', chunk, hnext, hne, hyyin, htext, hbuf'⟩
  · rw [hnext]
    refine ⟨_, { y' with cBufP := y'.textPtr }, rfl,
      Or.inl ⟨rfl, ?_, { hfresh with cBufP := htext }⟩⟩
    rw [hw, hpnil, hend]; rfl
  · have hcount : y'.nChars = p.length := by rw [hbuf'.count, Nat.zero_add]
    have hw' : w = p := by rw [hw, hend, List.append_nil]
    have hbuf₁ : Buffered { y' with cBufP := y'.nChars } y'.textPtr (p ++ []) := by
      rw [htext, List.append_nil]; exact { hbuf' with }
    obtain ⟨k, hk, hhas⟩ := Yy.previousState_spec hbuf₁ hread (by
      dsimp only; rw [hcount, htext, Nat.zero_add])
    have hsame : { k with cp := y'.nChars } = k := by
      rw [show y'.nChars = k.cp by rw [hhas.cp, hcount]; dsimp only; rw [htext, Nat.zero_add]]
    rw [hnext, Option.bind_eq_bind, Option.bind_some]
    dsimp only
    rw [hk, Option.bind_eq_bind, Option.bind_some]
    dsimp only
    rw [hsame]
    have hdec := hhas.decided_here (v := []) (by simpa using hpne) nofun
    refine ⟨_, { y' with cBufP := y'.nChars, bp := y'.textPtr, cursor := k }, rfl,
      Or.inr (Or.inl ⟨rfl, p, ?_, ?_, ?_⟩)⟩
    · rw [List.append_nil] at hbuf₁
      exact { hbuf₁ with }
    · rw [hw', hend', List.append_nil]
    · rw [List.append_nil] at hdec
      rw [hw']
      exact hdec
  · have hbuf₁ : Buffered { y' with cBufP := y'.textPtr + p.length } y'.textPtr (p ++ chunk) := by
      rw [htext]; exact { hbuf' with }
    obtain ⟨k, hk, hhas⟩ := Yy.previousState_spec hbuf₁ hread rfl
    have hsame : { k with cp := y'.textPtr + p.length } = k := by rw [← hhas.cp]
    rw [hnext, Option.bind_eq_bind, Option.bind_some]
    dsimp only
    rw [hk, Option.bind_eq_bind, Option.bind_some]
    dsimp only
    rw [hsame]
    refine ⟨_, { y' with cBufP := y'.textPtr + p.length, bp := y'.textPtr, cursor := k }, rfl,
      Or.inr (Or.inr ⟨rfl, ⟨chunk, { hbuf₁ with }, ?_, hhas⟩, ?_⟩)⟩
    · rw [hw, hyyin, List.append_assoc]
    · have := List.length_pos_iff.2 hne
      rw [hyyin, List.length_append]
      dsimp only
      omega

theorem Buffered.bufferNormal {pos : ℕ} {rest : List UInt8} (h : Buffered y pos rest) :
    Buffered y.bufferNormal pos rest ∧ y.bufferNormal.status ≠ .new ∧
      y.bufferNormal = { y with status := y.bufferNormal.status } := by
  rw [Yy.bufferNormal]
  split
  · next hnew =>
    obtain ⟨hn, hb⟩ := h.new hnew
    exact ⟨{ h with count := hb.trans (hn.symm.trans h.count), new := nofun, eof := nofun }, nofun,
      by rw [hb, ← hn]⟩
  · next hnew => exact ⟨h, hnew, rfl⟩

theorem Yy.endOfBuffer_eq {n : ℕ} {buf : List UInt8}
    (hput : put y.chBuf y.cursor.cp y.holdChar = some buf)
    (hcp : y.cursor.cp = y.textPtr + n + 1) {y' : Yy}
    (hy' : Yy.bufferNormal { y with chBuf := buf } = y') :
    y.endOfBuffer env = if y'.cBufP ≤ y'.nChars then Yy.nul { y' with cBufP := y'.textPtr + n }
      else y'.refill env n := by
  have hamount : y.cursor.cp - y.textPtr - 1 = n := by omega
  rw [Yy.endOfBuffer, hput, Option.bind_eq_bind, Option.bind_some]
  dsimp only
  rw [hy', hamount]

/-- The NUL that the cursor has met is found by `yy_find_action`. -/
theorem AtNul.findAction {rest : List UInt8} (hnul : AtNul y.bp p.length y.cursor)
    (hbuf : Buffered y y.bp (p ++ rest)) :
    ∃ y', y.findAction = some (yyEndOfBuffer, y') ∧ y'.textPtr = y.bp ∧ y'.yyin = y.yyin ∧
      y'.cursor.cp = y'.textPtr + p.length + 1 ∧ y'.cBufP = y'.textPtr + p.length + 1 ∧
      put y'.chBuf y'.cursor.cp y'.holdChar = some y.chBuf ∧
      Buffered { y' with chBuf := y.chBuf } y'.textPtr (p ++ rest) := by
  have hlt : y.cursor.lastCpos < y.chBuf.length := by
    have := hbuf.lt_length (i := p.length + 1) (by rw [List.length_append]; omega)
    rw [hnul.lastCpos]
    omega
  have haccept : yyAccept[y.cursor.state]? = some 0 := by rw [hnul.state]; rfl
  have heob : yyAccept[y.cursor.lastState]? = some yyEndOfBuffer := by rw [hnul.lastState]; rfl
  refine ⟨_, Yy.findAction_eq (y := y) haccept
    (k := { y.cursor with state := y.cursor.lastState, cp := y.cursor.lastCpos })
    (by simp) heob hlt, rfl, rfl, hnul.lastCpos, hnul.lastCpos, ?_, { hbuf with }⟩
  dsimp only
  rw [put_eq (by rwa [List.length_set]), List.set_set, List.set_getElem_self]

/-- **`case YY_END_OF_BUFFER`**: the scanner reads on, with the NUL or with more of the file; or it
has come to the end of the token, or of the text. -/
theorem AtEob.step (h : AtEob y w p) (hlen : w.length + 1 < 2 ^ 30) :
    ∃ label y', yyStep env y .findAction = some (label, y', none) ∧
      ((label = .returned ∧ w = [] ∧ Fresh y') ∨ (label = .findAction ∧ AtFind y' w) ∨
        (label = .yyMatch ∧ ∃ q, AtMatch y' w q ∧
          p.length + y'.yyin.length < q.length + y.yyin.length)) := by
  obtain ⟨rest, hbuf, hw, hrest, hread, hnul⟩ := h
  obtain ⟨y₁, hfind, -, hyyin, hcp, hcBufP, hput, hbuf₁⟩ := hnul.findAction hbuf
  obtain ⟨hbuf', hnew, heq⟩ := hbuf₁.bufferNormal
  generalize hy' : Yy.bufferNormal { y₁ with chBuf := y.chBuf } = y' at hbuf' hnew heq
  have htext : y'.textPtr = y₁.textPtr := by rw [heq]
  have hcp' : y'.cBufP = y'.textPtr + p.length + 1 := by rw [heq]; exact hcBufP
  have hyyin' : y'.yyin = y.yyin := by rw [heq]; exact hyyin
  rw [← htext] at hbuf'
  rw [← hyyin'] at hw
  have hstep : ∀ label y₂, y₁.endOfBuffer env = some (label, y₂) →
      yyStep env y .findAction = some (label, y₂, none) := by
    intro label y₂ hend
    rw [yyStep, hfind, Option.bind_eq_bind, Option.bind_some]
    dsimp only
    rw [if_pos rfl, hend]; rfl
  rw [Yy.endOfBuffer_eq env hput hcp hy'] at hstep
  have hcount := hbuf'.count
  rcases hrest with rfl | ⟨z, rfl⟩
  · rw [List.append_nil] at hbuf' hw hcount
    rw [if_neg (by omega)] at hstep
    obtain ⟨label, y₂, hrefill, hcase⟩ := Yy.refill_spec env hbuf' hnew hread hcp' hw hlen
    refine ⟨label, y₂, hstep _ _ hrefill, hcase.imp id (Or.imp id ?_)⟩
    exact fun ⟨hl, hmatch, hlt⟩ ↦ ⟨hl, p, hmatch, by rw [← hyyin']; omega⟩
  · rw [List.length_append, List.length_cons] at hcount
    rw [if_pos (by omega)] at hstep
    obtain ⟨label, y₂, hnul', hin, hcase⟩ := Yy.nul_spec (y := { y' with
      cBufP := y'.textPtr + p.length }) { hbuf' with } hread rfl hw
    refine ⟨label, y₂, hstep _ _ hnul', Or.inr (hcase.symm.imp id ?_)⟩
    refine fun ⟨hl, hmatch⟩ ↦ ⟨hl, _, hmatch, ?_⟩
    rw [hin, ← hyyin', List.length_append, List.length_singleton]
    dsimp only
    omega

end

/-! ## Runs -/

/-- From the label the scanner comes to the end of its file, and on the way it calls `handle_token`
with the tokens of the text `w`. -/
def Sends (env : YyEnv) (label : YyLabel) (y : Yy) (w : List UInt8) : Prop :=
  ∃ n y', yySteps env n label y = some (.returned, y', tokens w) ∧ Fresh y'

section

variable {env : YyEnv} {label label' : YyLabel} {y y' : Yy} {w v p : List UInt8}

theorem Sends.head {token : Option Token} (hstep : yyStep env y label = some (label', y', token))
    (htokens : tokens w = token.toList ++ tokens v) (h : Sends env label' y' v) :
    Sends env label y w := by
  obtain ⟨n, y'', hn, hfresh⟩ := h
  refine ⟨n + 1, y'', ?_, hfresh⟩
  rw [yySteps, hstep, Option.bind_eq_bind, Option.bind_some]
  dsimp only
  rw [hn, htokens]; rfl

theorem Fresh.sends (h : Fresh y) : Sends env .returned y [] := ⟨0, y, rfl, h⟩

theorem AtFind.sends (h : AtFind y w)
    (ih : ∀ v y', v.length < w.length → AtLoop y' v → Sends env .loop y' v) :
    Sends env .findAction y w := by
  obtain ⟨y', token, n, hstep, hlt, hloop, htokens⟩ := h.step env
  exact .head hstep htokens (ih _ _ hlt hloop)

theorem AtMatch.length_le (h : AtMatch y w p) : p.length ≤ w.length := by
  obtain ⟨rest, -, rfl, -⟩ := h
  simp only [List.length_append]; omega

/-- By induction on what is left to read, of the token and of the file. -/
theorem AtMatch.sends (h : AtMatch y w p) (hlen : w.length + 1 < 2 ^ 30)
    (ih : ∀ v y', v.length < w.length → AtLoop y' v → Sends env .loop y' v) :
    Sends env .yyMatch y w := by
  induction hm : w.length + y.yyin.length - p.length using Nat.strong_induction_on
    generalizing y p with
  | _ m ihm =>
    obtain ⟨y', hstep, hyyin, hfind | ⟨q, hpq, heob⟩⟩ := h.step env
    · exact .head hstep rfl (hfind.sends ih)
    · refine .head hstep rfl ?_
      obtain ⟨label, y'', hstep', ⟨rfl, rfl, hfresh⟩ | ⟨rfl, hfind⟩ | ⟨rfl, r, hmatch, hlt⟩⟩ :=
        heob.step env hlen
      · exact .head hstep' rfl hfresh.sends
      · exact .head hstep' rfl (hfind.sends ih)
      · have hr := hmatch.length_le
        rw [hyyin] at hlt
        exact .head hstep' rfl (ihm _ (by omega) hmatch rfl)

theorem AtLoop.sends (h : AtLoop y w) (hlen : w.length + 1 < 2 ^ 30) : Sends env .loop y w := by
  induction hn : w.length using Nat.strong_induction_on generalizing y w with
  | _ n ih =>
    obtain ⟨y', hstep, hmatch, -⟩ := h.step env
    refine .head hstep rfl (hmatch.sends hlen fun v y' hv hloop ↦ ?_)
    exact ih v.length (hn ▸ hv) hloop (by omega) rfl

theorem Fresh.atLoop (h : Fresh y) (text : List UInt8) : AtLoop (y.open text) text := by
  obtain ⟨junk, hjunk⟩ := h.text
  have hset : y.chBuf.set y.cBufP y.holdChar = 0 :: 0 :: junk := by
    rw [h.cBufP, h.holdChar, hjunk]; rfl
  refine ⟨[], ⟨?_, h.room, ⟨junk, ?_⟩, ?_, fun _ ↦ ⟨h.nChars, h.bufNChars⟩, fun hs ↦ ?_⟩, rfl⟩
  · rw [List.length_set]; exact h.size
  · show (y.chBuf.set y.cBufP y.holdChar).drop y.cBufP = _
    rw [hset, h.cBufP]; rfl
  · exact h.nChars.trans (by rw [Yy.open, h.cBufP]; rfl)
  · exact nomatch h.status.symm.trans hs

theorem fresh_create {memory : List UInt8} (h : 0 < memory.length) :
    Fresh (Yy.create memory) :=
  ⟨rfl, h, ⟨memory, rfl⟩, rfl, rfl, rfl, rfl, rfl⟩

/-- One file after the other, each from where the last one has left the scanner, with the calls of
`handle_token` for each. -/
def Scans (env : YyEnv) : Yy → List (List UInt8) → List (List Token) → Prop
  | _, [], sent => sent = []
  | y, text :: texts, sent => ∃ n y' ts rest,
    yySteps env n .loop (y.open text) = some (.returned, y', ts) ∧ sent = ts :: rest ∧
      Scans env y' texts rest

theorem Fresh.scans (h : Fresh y) {texts : List (List UInt8)}
    (htexts : ∀ text ∈ texts, text.length + 1 < 2 ^ 30) :
    Scans env y texts (texts.map tokens) := by
  induction texts generalizing y with
  | nil => rfl
  | cons text texts ih =>
    obtain ⟨hlen, htexts⟩ := List.forall_mem_cons.1 htexts
    obtain ⟨n, y', hn, hfresh⟩ : Sends env .loop (y.open text) text :=
      (h.atLoop text).sends hlen
    exact ⟨n, y', _, _, hn, rfl, ih hfresh htexts⟩

end

/-- **The generated scanner sends the tokens of `scanner.l`**, for every text of less than 2^30 - 1
characters, for which the sizes of the buffer fit an `int`, whatever the sizes of the reads and
wherever they cut a token: it leaves neither its buffer nor its tables, it comes to the end of the
file, and it is then ready for the next one.  The buffer is the one that `yy_create_buffer`
allocates, in memory that has not been cleared. -/
theorem yylex_sends_tokens (env : YyEnv) (memory : List UInt8) (texts : List (List UInt8))
    (hmemory : memory.length = yyBufSize) (htexts : ∀ text ∈ texts, text.length + 1 < 2 ^ 30) :
    Scans env (Yy.create memory) texts (texts.map tokens) :=
  (fresh_create (by rw [hmemory]; decide)).scans htexts

/-- A terminal gives one line at a time, so the scanner reads on in the middle of the first string,
and at the end of the file in the middle of the second. -/
theorem yylex_sends_tokens_lines :
    Scans ⟨true, 0⟩ (Yy.create (List.replicate yyBufSize 0xff))
      [ascii "MAX_PORTS 7;\n", ascii "\"a\nb\" 7;\n", [], ascii "\"a"]
      ([ascii "MAX_PORTS 7;\n", ascii "\"a\nb\" 7;\n", [], ascii "\"a"].map tokens) :=
  yylex_sends_tokens _ _ _ List.length_replicate (by decide)

end Scanner

end DmmrOrbit
