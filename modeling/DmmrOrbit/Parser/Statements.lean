import DmmrOrbit.Parser.Console

/-!
# Values and the statements they are written in

The selection that a keyword makes lasts until a number or a string ends it.  A semicolon does not
end it, nor does any other token, so a statement without a value hands its field on to the
statements behind it.

`storesInto` is the field that `handle_token` stores a token into, `cfgServer_handleToken` says that
nothing else is ever stored.  `StatementsIsolated` says of a list of tokens that every value is
stored into a field selected in the value's own statement, and `Answered` says in terms of the
tokens alone that no keyword is left to a value behind the end of its statement.
`statementsIsolated_iff` is the result, for every text: the two come to the same.
`not_statementsIsolated` is the text `SLEEP_TIME ; 5`, where the number is stored.

`currentSetting_eq_some` is what carries the proof: after any list of tokens the field that is
selected is that of the last keyword, and no value has come behind it.
-/

set_option autoImplicit false

namespace DmmrOrbit

open Scanner

/-! ## Selections and stores -/

namespace Token

/-- The field that a token selects. -/
def selects (t : Token) : Option Keyword :=
  if t.type = .keyword then Keyword.all.find? fun k ↦ cstr t.value = k.text else none

/-- Neither a value nor a keyword: the tokens that `handle_token` ignores. -/
def Ignored (t : Token) : Prop := t.type ≠ .number ∧ t.type ≠ .string ∧ t.selects = none

/-- A value of the kind of the keyword's field. -/
def IsValueFor (t : Token) (k : Keyword) : Prop :=
  t.type = .number ∧ ¬ k.IsUri ∨ t.type = .string ∧ k.IsUri

instance (t : Token) (k : Keyword) : Decidable (t.IsValueFor k) :=
  inferInstanceAs (Decidable (_ ∨ _))

theorem selects_text (k : Keyword) : (⟨.keyword, k.text⟩ : Token).selects = some k :=
  (if_pos rfl).trans (Keyword.find_text k)

end Token

/-- The field that `handle_token` stores a token into. -/
def storesInto (c : Console) (t : Token) : Option Keyword :=
  if c.cfg then c.currentSetting.filter fun k ↦ t.IsValueFor k else none

theorem storesInto_eq_some {c : Console} (hc : c.cfg = true) {t : Token} {k : Keyword} :
    storesInto c t = some k ↔ c.currentSetting = some k ∧ t.IsValueFor k := by
  rw [storesInto, if_pos hc, Option.filter_eq_some_iff, decide_eq_true_iff]

/-! ## What a token does -/

theorem Token.type_of_selects {t : Token} {k : Keyword} (h : t.selects = some k) :
    t.type = .keyword := by
  rw [selects] at h
  split at h
  · next ht => exact ht
  · exact absurd h (by simp)

/-- A token is ignored, selects a field or is a value. -/
theorem Token.ignored_or (t : Token) :
    t.Ignored ∨ (∃ k, t.selects = some k) ∨ t.type = .number ∨ t.type = .string := by
  by_cases hn : t.type = .number
  · exact Or.inr (Or.inr (Or.inl hn))
  · by_cases hs : t.type = .string
    · exact Or.inr (Or.inr (Or.inr hs))
    · cases hk : t.selects with
      | none => exact Or.inl ⟨hn, hs, hk⟩
      | some k => exact Or.inr (Or.inl ⟨k, rfl⟩)

theorem handleToken_of_ignored (c : Console) {t : Token} (h : t.Ignored) : handleToken c t = c := by
  obtain ⟨hn, hs, hk⟩ := h
  rw [handleToken]
  split
  · rfl
  · split
    · next ht =>
      rw [Token.selects, if_pos ht] at hk
      rw [hk]
    · next ht => exact absurd ht hn
    · next ht => exact absurd ht hs
    · rfl

theorem handleToken_of_selects {c : Console} (hc : c.cfg = true) {t : Token} {k : Keyword}
    (h : t.selects = some k) : handleToken c t = { c with currentSetting := some k } := by
  have ht := Token.type_of_selects h
  rw [Token.selects, if_pos ht] at h
  rw [handleToken, if_neg (by rw [hc]; decide)]
  simp only [ht, h]

theorem handleToken_of_value {c : Console} (hc : c.cfg = true) {t : Token}
    (h : t.type = .number ∨ t.type = .string) :
    (handleToken c t).currentSetting = none ∧ (handleToken c t).cfg = true := by
  rw [handleToken, if_neg (by rw [hc]; decide)]
  rcases h with ht | ht
  · simp only [ht, hc, and_self]
  · simp only [ht, hc, and_self]

theorem cfg_handleToken (c : Console) (t : Token) : (handleToken c t).cfg = c.cfg := by
  cases hc : c.cfg with
  | false => rw [handleToken, if_pos hc, hc]
  | true =>
    rcases t.ignored_or with h | ⟨k, h⟩ | h
    · rw [handleToken_of_ignored c h, hc]
    · rw [handleToken_of_selects hc h]; exact hc
    · exact (handleToken_of_value hc h).2

theorem cfg_handleTokens (c : Console) (ts : List Token) : (handleTokens c ts).cfg = c.cfg := by
  induction ts generalizing c with
  | nil => rfl
  | cons t ts ih => rw [handleTokens_cons, ih, cfg_handleToken]

theorem CfgServerServer.storeNumber_of_isUri {k : Keyword} (h : k.IsUri) (cfg : CfgServerServer)
    (value : List UInt8) : cfg.storeNumber value k = cfg := by
  cases k <;> first | rfl | exact h.elim

theorem CfgServerServer.storeString_of_not_isUri {k : Keyword} (h : ¬ k.IsUri)
    (cfg : CfgServerServer) (value : List UInt8) : cfg.storeString value k = cfg := by
  cases k <;> first | rfl | exact absurd trivial h

/-- What a token does to the configuration: it is stored into the field `storesInto` names, if it
names one, and nothing else is written. -/
theorem cfgServer_handleToken {c : Console} (hc : c.cfg = true) (t : Token) :
    (handleToken c t).cfgServer = match storesInto c t with
      | some k => if k.IsUri then c.cfgServer.storeString t.value k
        else c.cfgServer.storeNumber t.value k
      | none => c.cfgServer := by
  have none_of (h : t.type ≠ .number ∧ t.type ≠ .string) : storesInto c t = none := by
    rw [Option.eq_none_iff_forall_ne_some]
    intro k hk
    rcases ((storesInto_eq_some hc).1 hk).2 with ⟨hv, -⟩ | ⟨hv, -⟩
    · exact h.1 hv
    · exact h.2 hv
  rcases t.ignored_or with h | ⟨k, h⟩ | h
  · rw [handleToken_of_ignored c h, none_of ⟨h.1, h.2.1⟩]
  · have ht := Token.type_of_selects h
    rw [handleToken_of_selects hc h, none_of ⟨by rw [ht]; decide, by rw [ht]; decide⟩]
  · rw [handleToken, if_neg (by rw [hc]; decide), storesInto, if_pos hc]
    cases hs : c.currentSetting with
    | none =>
      rcases h with ht | ht <;>
        simp only [ht, Option.map_none, Option.getD_none, Option.filter_none]
    | some k =>
      by_cases hk : k.IsUri
      · rcases h with ht | ht <;> simp [ht, Token.IsValueFor, hk, Option.filter,
          CfgServerServer.storeNumber_of_isUri]
      · rcases h with ht | ht <;> simp [ht, Token.IsValueFor, hk, Option.filter,
          CfgServerServer.storeString_of_not_isUri]

/-! ## The selection after a list of tokens -/

/-- The field that is selected is that of the last keyword, with nothing but ignored tokens behind
it. -/
theorem currentSetting_eq_some {c : Console} (hc : c.cfg = true) (hn : c.currentSetting = none)
    {ts : List Token} {k : Keyword} :
    (handleTokens c ts).currentSetting = some k ↔
      ∃ a u b, ts = a ++ u :: b ∧ u.selects = some k ∧ ∀ v ∈ b, v.Ignored := by
  induction ts using List.reverseRecOn generalizing k with
  | nil => simp [hn]
  | append_singleton ts t ih =>
    have hc' : (handleTokens c ts).cfg = true := (cfg_handleTokens c ts).trans hc
    rw [handleTokens_append, handleTokens_cons, handleTokens_nil]
    constructor
    · intro h
      rcases t.ignored_or with hi | ⟨l, hl⟩ | hv
      · rw [handleToken_of_ignored _ hi] at h
        obtain ⟨a, u, b, rfl, hu, hb⟩ := ih.1 h
        refine ⟨a, u, b ++ [t], by simp, hu, fun v hv ↦ ?_⟩
        rcases List.mem_append.1 hv with hv | hv
        · exact hb v hv
        · exact List.mem_singleton.1 hv ▸ hi
      · rw [handleToken_of_selects hc' hl] at h
        exact ⟨ts, t, [], rfl, hl.trans h, by simp⟩
      · rw [(handleToken_of_value hc' hv).1] at h
        exact absurd h (by simp)
    · rintro ⟨a, u, b, heq, hu, hb⟩
      cases b using List.reverseRecOn with
      | nil =>
        obtain ⟨rfl, hut⟩ := List.append_inj' heq rfl
        rw [List.singleton_inj.1 hut, handleToken_of_selects hc' hu]
      | append_singleton b v =>
        rw [← List.cons_append, ← List.append_assoc] at heq
        obtain ⟨hts, htv⟩ := List.append_inj' heq rfl
        rw [List.singleton_inj.1 htv, handleToken_of_ignored _ (hb v (by simp))]
        exact ih.2 ⟨a, u, b, hts, hu, fun w hw ↦ hb w (List.mem_append_left _ hw)⟩

/-- Two splittings of a list at the last element with a property are the same. -/
theorem last_unique {α : Type} {p : α → Prop} {a a' b b' : List α} {u u' : α}
    (h : a ++ u :: b = a' ++ u' :: b') (hu : p u) (hu' : p u') (hb : ∀ v ∈ b, ¬ p v)
    (hb' : ∀ v ∈ b', ¬ p v) : a = a' ∧ u = u' ∧ b = b' := by
  rcases List.append_eq_append_iff.1 h with ⟨x, rfl, hx⟩ | ⟨x, rfl, hx⟩
  · cases x with
    | nil =>
      obtain ⟨rfl, rfl⟩ := List.cons.inj hx
      exact ⟨(List.append_nil _).symm, rfl, rfl⟩
    | cons y x =>
      rw [List.cons_append, List.cons.injEq] at hx
      exact absurd hu' (hb u' (hx.2 ▸ List.mem_append_right _ List.mem_cons_self))
  · cases x with
    | nil =>
      obtain ⟨rfl, rfl⟩ := List.cons.inj hx
      exact ⟨List.append_nil _, rfl, rfl⟩
    | cons y x =>
      rw [List.cons_append, List.cons.injEq] at hx
      exact absurd hu (hb' u (hx.2 ▸ List.mem_append_right _ List.mem_cons_self))

/-! ## Statements -/

/-- Whenever a value is stored into a field, the keyword that selected the field — the last one
before the value — stands in the same statement: no semicolon comes between them. -/
def StatementsIsolated (c : Console) (ts : List Token) : Prop :=
  ∀ pre t post k, ts = pre ++ t :: post → storesInto (handleTokens c pre) t = some k →
    ∃ a u b, pre = a ++ u :: b ∧ u.selects = some k ∧ (∀ v ∈ b, v.selects = none) ∧
      ∀ v ∈ b, v.type ≠ .semicolon

/-- Whenever a keyword is followed by a value of its kind, with neither a keyword nor a value
between them, there is no semicolon between them either. -/
def Answered (ts : List Token) : Prop :=
  ∀ a u b t post k, ts = a ++ u :: b ++ t :: post → u.selects = some k → t.IsValueFor k →
    (∀ v ∈ b, v.Ignored) → ∀ v ∈ b, v.type ≠ .semicolon

theorem answered_of_statementsIsolated {c : Console} (hc : c.cfg = true)
    (hn : c.currentSetting = none) {ts : List Token} (h : StatementsIsolated c ts) :
    Answered ts := by
  intro a u b t post k hts hu ht hb v hv
  have hset := (currentSetting_eq_some hc hn).2 ⟨a, u, b, rfl, hu, hb⟩
  have hstore := (storesInto_eq_some ((cfg_handleTokens _ _).trans hc)).2 ⟨hset, ht⟩
  obtain ⟨a', u', b', heq, hu', hb', hsemi⟩ := h _ t post k hts hstore
  -- the keyword that selected the field is the one the value answers
  have hsel : ∀ {w : Token}, w.selects = some k → w.selects.isSome := fun hw ↦ hw ▸ rfl
  have hnone : ∀ {w : Token}, w.selects = none → ¬ w.selects.isSome := fun hw ↦ by rw [hw]; simp
  obtain ⟨-, -, rfl⟩ := last_unique heq (hsel hu) (hsel hu') (fun w hw ↦ hnone (hb w hw).2.2)
    fun w hw ↦ hnone (hb' w hw)
  exact hsemi v hv

theorem statementsIsolated_of_answered {c : Console} (hc : c.cfg = true)
    (hn : c.currentSetting = none) {ts : List Token} (h : Answered ts) :
    StatementsIsolated c ts := by
  intro pre t post k hts hstore
  obtain ⟨hset, ht⟩ := (storesInto_eq_some ((cfg_handleTokens _ _).trans hc)).1 hstore
  obtain ⟨a, u, b, rfl, hu, hb⟩ := (currentSetting_eq_some hc hn).1 hset
  exact ⟨a, u, b, rfl, hu, fun v hv ↦ (hb v hv).2.2, h a u b t post k hts hu ht hb⟩

/-- **Statements are isolated** in a text exactly when no keyword is left without a value to the end
of its statement and finds one of its kind behind it. -/
theorem statementsIsolated_iff (c : Console) (text : List UInt8) :
    StatementsIsolated (consoleSetup c (some text)).2 (tokens text) ↔ Answered (tokens text) :=
  ⟨answered_of_statementsIsolated rfl rfl, statementsIsolated_of_answered rfl rfl⟩

/-- `SLEEP_TIME ; 5`. -/
def unansweredText : List UInt8 :=
  Keyword.sleepTime.text ++ ([0x20] ++ semicolon :: ([0x20] ++ ([0x35] ++ [])))

theorem tokens_unansweredText : tokens unansweredText =
    [⟨.keyword, Keyword.sleepTime.text⟩, ⟨.semicolon, [semicolon]⟩, ⟨.number, [0x35]⟩] := by
  have hspace : IsSpace 0x20 := Or.inl List.mem_cons_self
  have hspaces : ∀ b ∈ [0x20], IsSpace b := fun b hb ↦ List.mem_singleton.1 hb ▸ hspace
  have hdigits : ∀ b ∈ [0x35], b ∈ digit := fun b hb ↦ by
    rw [List.mem_singleton.1 hb]; decide
  rw [unansweredText, tokens_keyword _ (by rintro a ⟨⟩; exact not_identTail_of_isSpace hspace),
    tokens_spaces hspaces, tokens_semicolon, tokens_spaces hspaces,
    tokens_number (List.cons_ne_nil _ _) hdigits (by simp), tokens_nil]

/-- In `SLEEP_TIME ; 5` the number is stored into `sleep_time`, behind the end of the statement. -/
theorem not_statementsIsolated : ¬ ∀ (c : Console) (text : List UInt8),
    StatementsIsolated (consoleSetup c (some text)).2 (tokens text) := by
  intro h
  have hi := answered_of_statementsIsolated rfl rfl (h ⟨false, none, none, .zero⟩ unansweredText)
  rw [tokens_unansweredText] at hi
  exact hi [] _ [⟨.semicolon, [semicolon]⟩] ⟨.number, [0x35]⟩ [] .sleepTime rfl
    (Token.selects_text _) (Or.inl ⟨rfl, by decide⟩) (by simp [Token.Ignored, Token.selects]) _
    List.mem_cons_self rfl

end DmmrOrbit
