import Mathlib
import DmmrOrbit.Session.SessionPool

/-!
# The order of `node_cmp`

`node_cmp` compares two nodes by descriptor, port, family and address, in this order, and a null
pointer is below every node.  Read as a comparison it is a linear preorder: its sign is that of the
lexicographic order of the four (`nodeCmp_order`), so that it changes with the order of its
arguments, and what it finds equal to the same is equal (`nodeCmp_trans_zero`).

The two address arrays of a node have the sizes that C gives them (`Node.Sized`).
-/

set_option autoImplicit false

namespace DmmrOrbit

/-- The arrays of a node have their sizes. -/
structure Node.Sized (n : Node) : Prop where
  length_ipv4 : n.ipv4.length = 16
  length_ipv6 : n.ipv6.length = 28

/-- What `node_cmp` compares, in the order in which it does. -/
abbrev NodeKey := ℤ ×ₗ ℕ ×ₗ ℕ ×ₗ List ℕ

def Node.key (n : Node) : NodeKey :=
  toLex (n.fd, toLex (n.port.toNat, toLex (n.family.value, n.comparedAddr.map UInt8.toNat)))

/-- The place of a pointer to a node. -/
def nodeRank : Option Node → WithBot NodeKey
  | none => ⊥
  | some n => n.key

theorem nodeRank_none_lt (n : Node) : nodeRank none < nodeRank (some n) := WithBot.bot_lt_coe n.key

theorem EzpAddrType.value_injective : Function.Injective EzpAddrType.value := by
  intro a b h
  cases a <;> cases b <;> first | rfl | exact absurd h (by decide)

theorem Node.Sized.length_comparedAddr {n : Node} (h : n.Sized) :
    n.comparedAddr.length = match n.family with
      | .ipv4 => 4
      | .ipv6 => 16
      | _ => 0 := by
  rw [Node.comparedAddr]
  cases n.family <;> simp [h.length_ipv4, h.length_ipv6]

/-! ## The comparison of bytes -/

/-- Between byte strings of one length, `__vcmp` is negative when the first is the smaller one. -/
theorem vcmp_neg_iff {a b : List UInt8} (h : a.length = b.length) :
    vcmp a b < 0 ↔ a.map UInt8.toNat < b.map UInt8.toNat := by
  induction a generalizing b with
  | nil =>
    obtain rfl := List.length_eq_zero_iff.1 h.symm
    simp [vcmp]
  | cons x a ih =>
    cases b with
    | nil => exact absurd h (by simp)
    | cons y b =>
      rw [vcmp, List.map_cons, List.map_cons, List.cons_lt_cons_iff]
      by_cases hxy : x = y
      · rw [if_pos hxy, ih (Nat.succ.inj h), hxy]
        simp
      · have hne : x.toNat ≠ y.toNat := fun heq ↦ hxy (UInt8.toNat_inj.1 heq)
        rw [if_neg hxy]
        simp only [hne, false_and, or_false]
        omega

/-! ## The comparison of nodes -/

section

variable {a b : Node}

/-- Nodes of one family have addresses of one length. -/
theorem Node.Sized.length_eq (ha : a.Sized) (hb : b.Sized) (h : a.family = b.family) :
    a.comparedAddr.length = b.comparedAddr.length := by
  rw [ha.length_comparedAddr, hb.length_comparedAddr, h]

/-- The address is looked at last. -/
theorem nodeCmp_addr (hfd : a.fd = b.fd) (hport : a.port = b.port) (hfamily : a.family = b.family) :
    nodeCmp (some a) (some b) = vcmp a.comparedAddr b.comparedAddr := by
  rw [nodeCmp, if_neg (not_not.2 hfd), if_neg (not_not.2 hport), if_neg (not_not.2 hfamily),
    Node.comparedAddr, Node.comparedAddr, ← hfamily]
  cases a.family <;> rfl

theorem key_lt_iff : a.key < b.key ↔ a.fd < b.fd ∨ a.fd = b.fd ∧
    (a.port.toNat < b.port.toNat ∨ a.port.toNat = b.port.toNat ∧
      (a.family.value < b.family.value ∨ a.family.value = b.family.value ∧
        a.comparedAddr.map UInt8.toNat < b.comparedAddr.map UInt8.toNat)) := by
  rw [Node.key, Node.key, Prod.Lex.toLex_lt_toLex, Prod.Lex.toLex_lt_toLex,
    Prod.Lex.toLex_lt_toLex]

theorem nodeCmp_neg_iff (ha : a.Sized) (hb : b.Sized) :
    nodeCmp (some a) (some b) < 0 ↔ a.key < b.key := by
  rw [key_lt_iff]
  by_cases hfd : a.fd = b.fd
  · by_cases hport : a.port = b.port
    · by_cases hfamily : a.family = b.family
      · rw [nodeCmp_addr hfd hport hfamily, vcmp_neg_iff (ha.length_eq hb hfamily)]
        simp [hfd, hport, hfamily]
      · have hne : a.family.value ≠ b.family.value := mt (@EzpAddrType.value_injective _ _) hfamily
        rw [nodeCmp, if_neg (not_not.2 hfd), if_neg (not_not.2 hport), if_pos hfamily]
        simp only [hfd, hport, hne, lt_self_iff_false, false_or, true_and, false_and, or_false]
        split <;> omega
    · have hne : a.port.toNat ≠ b.port.toNat := mt UInt16.toNat_inj.1 hport
      have hgt : a.port > b.port ↔ b.port.toNat < a.port.toNat := UInt16.lt_iff_toNat_lt
      rw [nodeCmp, if_neg (not_not.2 hfd), if_pos hport]
      simp only [hfd, hne, hgt, lt_self_iff_false, false_or, true_and, false_and, or_false]
      split <;> omega
  · rw [nodeCmp, if_pos hfd]
    simp only [hfd, false_and, or_false]
    split <;> omega

theorem nodeCmp_zero_iff (ha : a.Sized) (hb : b.Sized) :
    nodeCmp (some a) (some b) = 0 ↔ a.key = b.key := by
  have hmap : a.comparedAddr.map UInt8.toNat = b.comparedAddr.map UInt8.toNat ↔
      a.comparedAddr = b.comparedAddr :=
    (List.map_injective_iff.2 fun _ _ ↦ UInt8.toNat_inj.1).eq_iff
  rw [nodeCmp_eq_zero_iff (ha.length_eq hb), Node.key, Node.key]
  simp only [EmbeddingLike.apply_eq_iff_eq, Prod.mk.injEq, hmap, UInt16.toNat_inj,
    EzpAddrType.value_injective.eq_iff]

end

/-- **The order of `node_cmp`**: its sign is that of the lexicographic order of descriptor, port,
family and address, with the null pointer below all nodes. -/
theorem nodeCmp_order {a b : Option Node} (ha : ∀ n ∈ a, n.Sized) (hb : ∀ n ∈ b, n.Sized) :
    (nodeCmp a b < 0 ↔ nodeRank a < nodeRank b) ∧ (nodeCmp a b = 0 ↔ nodeRank a = nodeRank b) ∧
      (0 < nodeCmp a b ↔ nodeRank b < nodeRank a) := by
  have hboth : (nodeCmp a b < 0 ↔ nodeRank a < nodeRank b) ∧
      (nodeCmp a b = 0 ↔ nodeRank a = nodeRank b) := by
    cases a with
    | none =>
      cases b with
      | none => exact ⟨iff_of_false (lt_irrefl 0) (lt_irrefl ⊥), iff_of_true rfl rfl⟩
      | some b =>
        have hlt := nodeRank_none_lt b
        have hneg : nodeCmp none (some b) < 0 := Int.negSucc_lt_zero 0
        exact ⟨iff_of_true hneg hlt, iff_of_false hneg.ne hlt.ne⟩
    | some a =>
      cases b with
      | none =>
        have hlt := nodeRank_none_lt a
        have hpos : 0 < nodeCmp (some a) none := Int.one_pos
        exact ⟨iff_of_false hpos.not_gt hlt.not_gt, iff_of_false hpos.ne' hlt.ne'⟩
      | some b =>
        have ha := ha a rfl
        have hb := hb b rfl
        rw [nodeCmp_neg_iff ha hb, nodeCmp_zero_iff ha hb]
        exact ⟨WithBot.coe_lt_coe.symm, WithBot.coe_inj.symm⟩
  refine ⟨hboth.1, hboth.2, ?_⟩
  rcases lt_trichotomy (nodeRank a) (nodeRank b) with hlt | heq | hgt
  · have hneg := hboth.1.2 hlt
    exact iff_of_false (by omega) hlt.not_gt
  · have hzero := hboth.2.2 heq
    exact iff_of_false (by omega) heq.not_gt
  · have hneg := mt hboth.1.1 hgt.not_gt
    have hzero := mt hboth.2.1 hgt.ne'
    exact iff_of_true (by omega) hgt

/-- A node that two pointers are found equal to makes them equal. -/
theorem nodeCmp_trans_zero {n : Node} {a b : Option Node} (hn : n.Sized) (ha : ∀ m ∈ a, m.Sized)
    (hb : ∀ m ∈ b, m.Sized) (hna : nodeCmp (some n) a = 0) (hnb : nodeCmp (some n) b = 0) :
    nodeCmp a b = 0 := by
  have hsized : ∀ m ∈ some n, m.Sized := fun m hm ↦ Option.some.inj hm ▸ hn
  have hleft := (nodeCmp_order hsized ha).2.1.1 hna
  have hright := (nodeCmp_order hsized hb).2.1.1 hnb
  exact (nodeCmp_order ha hb).2.1.2 (hleft.symm.trans hright)

/-- **`node_cmp` is a linear preorder** on nodes and the null pointer: it changes its sign with the
order of its arguments, it is transitive, and pointers that it finds equal compare alike with every
other. -/
theorem nodeCmp_preorder {a b c : Option Node} (ha : ∀ n ∈ a, n.Sized) (hb : ∀ n ∈ b, n.Sized)
    (hc : ∀ n ∈ c, n.Sized) :
    (nodeCmp a b < 0 ↔ 0 < nodeCmp b a) ∧
      (nodeCmp a b ≤ 0 → nodeCmp b c ≤ 0 → nodeCmp a c ≤ 0) ∧
      (nodeCmp a b = 0 →
        (nodeCmp a c < 0 ↔ nodeCmp b c < 0) ∧ (nodeCmp a c = 0 ↔ nodeCmp b c = 0)) := by
  obtain ⟨hab, hab0, -⟩ := nodeCmp_order ha hb
  obtain ⟨-, -, hba⟩ := nodeCmp_order hb ha
  obtain ⟨hac, hac0, hca⟩ := nodeCmp_order ha hc
  obtain ⟨hbc, hbc0, hcb⟩ := nodeCmp_order hb hc
  have hle {x y : Option Node} (hx : ∀ n ∈ x, n.Sized) (hy : ∀ n ∈ y, n.Sized) :
      nodeCmp x y ≤ 0 ↔ nodeRank x ≤ nodeRank y := by
    rw [← not_lt, (nodeCmp_order hx hy).2.2, not_lt]
  refine ⟨hab.trans hba.symm, fun h1 h2 ↦ ?_, fun h ↦ ?_⟩
  · exact (hle ha hc).2 (((hle ha hb).1 h1).trans ((hle hb hc).1 h2))
  · rw [hac, hbc, hac0, hbc0, hab0.1 h]
    exact ⟨Iff.rfl, Iff.rfl⟩

/-- A node of the peer 10.0.0.`last`. -/
def ipv4Node (last : UInt8) : Node :=
  { Node.zero .mtu1500 with
    fd := 3
    port := 8080
    family := .ipv4
    ipv4 := [2, 0, 0x1f, 0x90, 10, 0, 0, last] ++ List.replicate 8 0 }

/-- A null pointer, and two nodes that differ in the last byte of the address. -/
theorem nodeCmp_preorder_three :
    nodeCmp none (some (ipv4Node 1)) ≤ 0 ∧ nodeCmp (some (ipv4Node 1)) (some (ipv4Node 2)) ≤ 0 ∧
      nodeCmp none (some (ipv4Node 2)) ≤ 0 ∧
      0 < nodeCmp (some (ipv4Node 2)) (some (ipv4Node 1)) := by
  have hsized (last : UInt8) : ∀ n ∈ some (ipv4Node last), n.Sized :=
    fun n hn ↦ Option.some.inj hn ▸ ⟨rfl, List.length_replicate⟩
  have h1 : nodeCmp none (some (ipv4Node 1)) ≤ 0 := by decide
  have h2 : nodeCmp (some (ipv4Node 1)) (some (ipv4Node 2)) < 0 := by decide
  have hnull := nodeCmp_preorder (a := none) (by simp) (hsized 1) (hsized 2)
  have hnodes := nodeCmp_preorder (hsized 1) (hsized 2) (hsized 2)
  exact ⟨h1, h2.le, hnull.2.1 h1 h2.le, hnodes.1.1 h2⟩

end DmmrOrbit
