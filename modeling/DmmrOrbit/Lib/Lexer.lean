import Mathlib.Computability.RegularExpressions

/-!
# Longest-match lexers

A lexer in the manner of `lex` and `flex`: a list of rules, each a regular expression with an
action.  At every point of the text the rule with the longest match wins, and of several rules that
match the same length the earliest one; the action of the winner may send a token, and lexing goes
on behind the match.  A symbol at which no rule matches anything is skipped.

The patterns are Mathlib's `RegularExpression`s, so a rule can be run (`rmatch`) and reasoned about
as a language (`matches'`).  The first section adds the three patterns a scanner is written with —
one symbol out of several, a fixed word, one or more of something — and says which words they match.

`lex` is the lexer.  What a proof about a particular set of rules uses of it is `lex_append`: when
`Wins rules r t rest`, that is when `t` is the longest match at the start of `t ++ rest` and `r` the
earliest rule that matches it, the text `t ++ rest` lexes to what `r` makes of `t`, followed by what
`rest` lexes to.
-/

set_option autoImplicit false

universe u v

namespace Lexer

open RegularExpression

variable {α : Type u} {β : Type v}

/-! ## Patterns -/

/-- One symbol out of a list. -/
def oneOf (l : List α) : RegularExpression α := (l.map char).sum

/-- A fixed word. -/
def word (w : List α) : RegularExpression α := (w.map char).prod

/-- One or more of something. -/
def oneOrMore (P : RegularExpression α) : RegularExpression α := P * P.star

theorem mem_char {a : α} {x : List α} : x ∈ (char a).matches' ↔ x = [a] := by
  rw [matches'_char]; exact Set.mem_singleton_iff

theorem mem_mul {P Q : RegularExpression α} {x : List α} :
    x ∈ (P * Q).matches' ↔ ∃ y ∈ P.matches', ∃ z ∈ Q.matches', y ++ z = x := by
  rw [matches'_mul, Language.mem_mul]

theorem mem_add {P Q : RegularExpression α} {x : List α} :
    x ∈ (P + Q).matches' ↔ x ∈ P.matches' ∨ x ∈ Q.matches' := by
  rw [matches'_add, Language.mem_add]

theorem mem_word {w : List α} {x : List α} : x ∈ (word w).matches' ↔ x = w := by
  induction w generalizing x with
  | nil => simp [word, Language.mem_one]
  | cons a w ih =>
    rw [word] at ih ⊢
    rw [List.map_cons, List.prod_cons, mem_mul]
    constructor
    · rintro ⟨y, hy, z, hz, rfl⟩
      rw [mem_char.1 hy, ih.1 hz, List.singleton_append]
    · rintro rfl
      exact ⟨[a], mem_char.2 rfl, w, ih.2 rfl, rfl⟩

theorem nil_mem_star (P : RegularExpression α) : [] ∈ P.star.matches' := by
  rw [matches'_star]; exact Language.nil_mem_kstar _

/-- What a star matches is empty, or one round of it followed by more of the same. -/
theorem mem_star {P : RegularExpression α} {x : List α} :
    x ∈ P.star.matches' ↔ x = [] ∨ ∃ y ∈ P.matches', ∃ z ∈ P.star.matches', y ++ z = x := by
  rw [matches'_star]
  conv_lhs => rw [← Language.one_add_self_mul_kstar_eq_kstar]
  rw [Language.mem_add, Language.mem_one, Language.mem_mul]

/-- The pattern matches single symbols only, those with the property. -/
def Single (P : RegularExpression α) (p : α → Prop) : Prop :=
  ∀ x, x ∈ P.matches' ↔ ∃ a, p a ∧ x = [a]

theorem single_char (a : α) : Single (char a) (· = a) := fun x ↦ by
  rw [mem_char]; simp

theorem single_oneOf (l : List α) : Single (oneOf l) (· ∈ l) := by
  intro x
  induction l with
  | nil => simp [oneOf, Language.notMem_zero]
  | cons a l ih =>
    rw [oneOf] at ih ⊢
    rw [List.map_cons, List.sum_cons, mem_add, mem_char, ih, List.exists_mem_cons_iff]

theorem Single.add {P Q : RegularExpression α} {p q : α → Prop} (hP : Single P p)
    (hQ : Single Q q) : Single (P + Q) (fun a ↦ p a ∨ q a) := fun x ↦ by
  rw [mem_add, hP x, hQ x, ← exists_or]
  simp only [or_and_right]

/-- A star of single symbols matches the words over these symbols. -/
theorem Single.mem_star {P : RegularExpression α} {p : α → Prop} (hP : Single P p) {x : List α} :
    x ∈ P.star.matches' ↔ ∀ a ∈ x, p a := by
  induction x with
  | nil => exact iff_of_true (nil_mem_star P) (by simp)
  | cons a x ih =>
    rw [Lexer.mem_star, List.forall_mem_cons, ← ih]
    constructor
    · rintro (h | ⟨y, hy, z, hz, h⟩)
      · exact absurd h (List.cons_ne_nil _ _)
      · obtain ⟨b, hb, rfl⟩ := (hP y).1 hy
        obtain ⟨rfl, rfl⟩ := List.cons.inj h
        exact ⟨hb, hz⟩
    · rintro ⟨ha, hx⟩
      exact Or.inr ⟨[a], (hP _).2 ⟨a, ha, rfl⟩, x, hx, rfl⟩

theorem Single.mem_oneOrMore {P : RegularExpression α} {p : α → Prop} (hP : Single P p)
    {x : List α} : x ∈ (oneOrMore P).matches' ↔ x ≠ [] ∧ ∀ a ∈ x, p a := by
  rw [oneOrMore, mem_mul]
  constructor
  · rintro ⟨y, hy, z, hz, rfl⟩
    obtain ⟨a, ha, rfl⟩ := (hP y).1 hy
    rw [List.singleton_append, List.forall_mem_cons]
    exact ⟨List.cons_ne_nil _ _, ha, hP.mem_star.1 hz⟩
  · rintro ⟨hne, hx⟩
    cases x with
    | nil => exact absurd rfl hne
    | cons a x =>
      rw [List.forall_mem_cons] at hx
      exact ⟨[a], (hP _).2 ⟨a, hx.1, rfl⟩, x, hP.mem_star.2 hx.2, rfl⟩

/-! ## Rules -/

/-- A rule: what it matches, and the token it makes of a match, if any. -/
structure Rule (α : Type u) (β : Type v) where
  pattern : RegularExpression α
  action : List α → Option β

/-- `t` is the longest match at the start of `t ++ rest`, and `r` the earliest rule that matches
it. -/
structure Wins (rules : List (Rule α β)) (r : Rule α β) (t rest : List α) : Prop where
  ne_nil : t ≠ []
  earliest : ∃ pre post, rules = pre ++ r :: post ∧ t ∈ r.pattern.matches' ∧
    ∀ q ∈ pre, t ∉ q.pattern.matches'
  longest : ∀ s, s ≠ [] → s <+: rest → ∀ q ∈ rules, t ++ s ∉ q.pattern.matches'

/-- It is enough for the longest match that no rule matches on over the next symbol. -/
theorem Wins.of_next {rules : List (Rule α β)} {r : Rule α β} {t rest : List α}
    (ne_nil : t ≠ [])
    (earliest : ∃ pre post, rules = pre ++ r :: post ∧ t ∈ r.pattern.matches' ∧
      ∀ q ∈ pre, t ∉ q.pattern.matches')
    (next : ∀ a, rest.head? = some a → ∀ q ∈ rules, ∀ s, t ++ a :: s ∉ q.pattern.matches') :
    Wins rules r t rest := by
  refine ⟨ne_nil, earliest, fun s hs hpre q hq ↦ ?_⟩
  cases s with
  | nil => exact absurd rfl hs
  | cons a s =>
    obtain ⟨u, rfl⟩ := hpre
    exact next a rfl q hq s

variable [DecidableEq α]

/-- The first rule that matches the whole of `t`. -/
def firstMatch (rules : List (Rule α β)) (t : List α) : Option (Rule α β) :=
  rules.find? fun r ↦ r.pattern.rmatch t

theorem firstMatch_eq_some {rules : List (Rule α β)} {r : Rule α β} {t : List α} :
    firstMatch rules t = some r ↔ ∃ pre post, rules = pre ++ r :: post ∧
      t ∈ r.pattern.matches' ∧ ∀ q ∈ pre, t ∉ q.pattern.matches' := by
  rw [firstMatch, List.find?_eq_some_iff_append]
  simp only [rmatch_iff_matches', Bool.not_eq_true', ← Bool.not_eq_true]
  constructor
  · rintro ⟨hr, pre, post, hrules, hpre⟩
    exact ⟨pre, post, hrules, hr, hpre⟩
  · rintro ⟨pre, post, hrules, hr, hpre⟩
    exact ⟨hr, pre, post, hrules, hpre⟩

theorem firstMatch_eq_none {rules : List (Rule α β)} {t : List α} :
    firstMatch rules t = none ↔ ∀ q ∈ rules, t ∉ q.pattern.matches' := by
  rw [firstMatch, List.find?_eq_none]
  simp only [rmatch_iff_matches']

/-- The longest match among the first `n` symbols of the text, with its rule. -/
def munch (rules : List (Rule α β)) (w : List α) : ℕ → Option (ℕ × Rule α β)
  | 0 => none
  | n + 1 => match firstMatch rules (w.take (n + 1)) with
    | some r => some (n + 1, r)
    | none => munch rules w n

theorem Wins.munch {rules : List (Rule α β)} {r : Rule α β} {t rest : List α}
    (h : Wins rules r t rest) (k : ℕ) (hk : k ≤ rest.length) :
    munch rules (t ++ rest) (t.length + k) = some (t.length, r) := by
  induction k with
  | zero =>
    obtain ⟨m, hm⟩ := Nat.exists_eq_succ_of_ne_zero (mt List.length_eq_zero_iff.1 h.ne_nil)
    have ht : (t ++ rest).take (m + 1) = t := by rw [← Nat.succ_eq_add_one, ← hm, List.take_left]
    rw [Nat.add_zero, hm, Lexer.munch, ht, firstMatch_eq_some.2 h.earliest]
  | succ k ih =>
    have hne : rest.take (k + 1) ≠ [] := by
      rw [← List.length_pos_iff_ne_nil, List.length_take]; omega
    have ht : (t ++ rest).take (t.length + k + 1) = t ++ rest.take (k + 1) := by
      rw [Nat.add_assoc, List.take_length_add_append]
    rw [← Nat.add_assoc, Lexer.munch, ht,
      firstMatch_eq_none.2 (h.longest _ hne (List.take_prefix _ _))]
    exact ih (by omega)

theorem munch_pos {rules : List (Rule α β)} {w : List α} {n m : ℕ} {r : Rule α β}
    (h : munch rules w n = some (m, r)) : 0 < m := by
  induction n with
  | zero => simp [munch] at h
  | succ n ih =>
    rw [munch] at h
    split at h
    · simp only [Option.some.injEq, Prod.mk.injEq] at h; omega
    · exact ih h

theorem munch_le {rules : List (Rule α β)} {w : List α} {n m : ℕ} {r : Rule α β}
    (h : munch rules w n = some (m, r)) : m ≤ n := by
  induction n with
  | zero => simp [munch] at h
  | succ n ih =>
    rw [munch] at h
    split at h
    · simp only [Option.some.injEq, Prod.mk.injEq] at h; omega
    · exact (ih h).trans (Nat.le_succ n)

/-- The match that is found is one of a rule. -/
theorem munch_match {rules : List (Rule α β)} {w : List α} {n m : ℕ} {r : Rule α β}
    (h : munch rules w n = some (m, r)) : r ∈ rules ∧ w.take m ∈ r.pattern.matches' := by
  induction n with
  | zero => simp [munch] at h
  | succ n ih =>
    rw [munch] at h
    split at h
    · next q hq =>
      obtain ⟨rfl, rfl⟩ := Prod.mk.inj (Option.some.inj h)
      obtain ⟨pre, post, rfl, hmatch, -⟩ := firstMatch_eq_some.1 hq
      exact ⟨by simp, hmatch⟩
    · exact ih h

/-! ## The lexer -/

/-- The tokens of a text, in at most as many rounds as the first argument says. -/
def lexFrom (rules : List (Rule α β)) : ℕ → List α → List β
  | 0, _ => []
  | _ + 1, [] => []
  | k + 1, a :: w => match munch rules (a :: w) (w.length + 1) with
    | some (n, r) => (r.action ((a :: w).take n)).toList ++ lexFrom rules k ((a :: w).drop n)
    | none => lexFrom rules k w

/-- The tokens of a text: a round takes at least one symbol. -/
def lex (rules : List (Rule α β)) (w : List α) : List β := lexFrom rules w.length w

theorem lexFrom_of_length_le (rules : List (Rule α β)) (k : ℕ) (w : List α) (h : w.length ≤ k) :
    lexFrom rules k w = lex rules w := by
  suffices ∀ n k w, w.length ≤ n → w.length ≤ k → lexFrom rules n w = lexFrom rules k w from
    this k w.length w h le_rfl
  intro n
  induction n with
  | zero =>
    intro k w hn _
    rw [List.length_eq_zero_iff.1 (Nat.le_zero.1 hn)]
    cases k with
    | zero => rfl
    | succ k => rfl
  | succ n ih =>
    intro k w hn hk
    cases w with
    | nil => cases k with
      | zero => rfl
      | succ k => rfl
    | cons a w =>
      rw [List.length_cons] at hn hk
      obtain ⟨k, rfl⟩ : ∃ m, k = m + 1 := ⟨k - 1, by omega⟩
      rw [lexFrom, lexFrom]
      split
      · next m r hm =>
        have hpos := munch_pos hm
        rw [ih k]
        · rw [List.length_drop, List.length_cons]; omega
        · rw [List.length_drop, List.length_cons]; omega
      · exact ih k w (by omega) (by omega)

/-- Every token is what some rule has made of a match of its own. -/
theorem mem_lex {rules : List (Rule α β)} {w : List α} {b : β} (h : b ∈ lex rules w) :
    ∃ r ∈ rules, ∃ t ∈ r.pattern.matches', r.action t = some b := by
  suffices ∀ k w, b ∈ lexFrom rules k w →
      ∃ r ∈ rules, ∃ t ∈ r.pattern.matches', r.action t = some b from this _ _ h
  intro k
  induction k with
  | zero => intro w h; exact absurd h List.not_mem_nil
  | succ k ih =>
    intro w h
    cases w with
    | nil => exact absurd h List.not_mem_nil
    | cons a w =>
      rw [lexFrom] at h
      split at h
      · next n r hm =>
        obtain ⟨hr, hmatch⟩ := munch_match hm
        rcases List.mem_append.1 h with h | h
        · exact ⟨r, hr, _, hmatch, Option.mem_toList.1 h⟩
        · exact ih _ h
      · exact ih w h

/-- **One round of the lexer**: behind the match of the winner, lexing starts afresh. -/
theorem lex_append {rules : List (Rule α β)} {r : Rule α β} {t rest : List α}
    (h : Wins rules r t rest) :
    lex rules (t ++ rest) = (r.action t).toList ++ lex rules rest := by
  have hm := h.munch rest.length le_rfl
  cases t with
  | nil => exact absurd rfl h.ne_nil
  | cons a t =>
    have hlen : (a :: t).length + rest.length = (t ++ rest).length + 1 := by
      simp only [List.length_cons, List.length_append]; omega
    rw [lex, List.cons_append, List.length_cons, lexFrom, ← List.cons_append, ← hlen, hm]
    show (r.action ((a :: t ++ rest).take (a :: t).length)).toList ++
      lexFrom rules _ ((a :: t ++ rest).drop (a :: t).length) = _
    rw [List.take_left, List.drop_left,
      lexFrom_of_length_le _ _ _ (by rw [List.length_append]; omega)]

end Lexer
