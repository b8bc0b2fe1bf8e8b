import Mathlib.Data.LawfulXor.Basic
import DmmrOrbit.Lib.ByteMemory
import DmmrOrbit.Structs

/-!
# The copies of `funcs.h`

`__bcpy` copies from the front or from the back, and `__vcpy` from the front.  Both go by words
where they can: `__bcpy` copies bytes until its pointers are aligned, if that can be for both of
them at a time, and `__vcpy` starts with words if both are aligned from the beginning.

`bcpy_eq_move` says that `__bcpy` is `memmove`, and `vcpy_eq_move` that `__vcpy` is one too, unless
the destination begins inside the source.  Neither comes to a word that is not aligned.

Addresses are natural numbers: the regions lie in the address space, and no more than their ends may
be beyond it.
-/

set_option autoImplicit false

namespace DmmrOrbit.Funcs

open ByteMemory

/-! ## `__bcpy` -/

/-- `sizeof(long)`. -/
def wsize : ℕ := 8

def wmask : ℕ := wsize - 1

/-- The rounds of a `do … while (--t)` for a `size_t`.  With an `if (t)` in front of it they are
`t`. -/
def rounds (t : ℕ) : ℕ := if t = 0 then 2 ^ 64 else t

/-- The bytes to copy before the words, from the front. -/
def prefixUp (u dst length : ℕ) : ℕ :=
  if (u ^^^ dst) &&& wmask ≠ 0 ∨ length < wsize then length else wsize - (u &&& wmask)

/-- The same from the back. -/
def prefixDown (u dst length : ℕ) : ℕ :=
  if (u ^^^ dst) &&& wmask ≠ 0 ∨ length ≤ wsize then length else u &&& wmask

/-- A direction of `__bcpy`: its loop and the length of its first part. -/
def bcpyParts (loop : ℕ → ℕ → Copying → Option Copying) (part : ℕ → ℕ → ℕ → ℕ) (s : Copying)
    (length : ℕ) : Option Copying :=
  if (s.src ||| s.dst) &&& wmask ≠ 0 then
    let t := part s.src s.dst length
    let length := length - t
    (loop 1 (rounds t) s).bind fun s ↦
      (loop wsize (length / wsize) s).bind fun s ↦ loop 1 (length &&& wmask) s
  else (loop wsize (length / wsize) s).bind fun s ↦ loop 1 (length &&& wmask) s

/-- `__bcpy`. -/
def bcpy (m : Memory) (src dst length : ℕ) : Option Memory :=
  if length = 0 ∨ dst = src then some m
  else if dst < src then
    (bcpyParts Copying.up prefixUp ⟨m, src, dst⟩ length).map Copying.mem
  else
    (bcpyParts Copying.down prefixDown ⟨m, src + length, dst + length⟩ length).map Copying.mem

/-! ## `__vcpy` -/

/-- `word_t`, by `INTPTR_MAX`. -/
inductive WordT
  | uint64
  | uint32
  | uint16
  | uint8
  deriving DecidableEq, Repr

def WordT.size : WordT → ℕ
  | uint64 => 8
  | uint32 => 4
  | uint16 => 2
  | uint8 => 1

/-- `__vcpy`. -/
def vcpy (word : WordT) (m : Memory) (d o s : ℕ) : Option Memory :=
  if d ≠ 0 ∧ o ≠ 0 ∧ s ≠ 0 then
    if d % word.size = 0 ∧ o % word.size = 0 then
      ((Copying.up word.size (s / word.size) ⟨m, o, d⟩).bind (Copying.up 1 (s % word.size))).map
        Copying.mem
    else (Copying.up 1 s ⟨m, o, d⟩).map Copying.mem
  else some m

/-! ## Alignment -/

theorem and_wmask (u : ℕ) : u &&& wmask = u % wsize := Nat.and_two_pow_sub_one_eq_mod u 3

theorem xor_and_wmask_eq_zero_iff {u v : ℕ} :
    (u ^^^ v) &&& wmask = 0 ↔ u % wsize = v % wsize := by
  have hxor : (u ^^^ v) % wsize = u % wsize ^^^ v % wsize := Nat.xor_mod_two_pow (n := 3)
  rw [and_wmask, hxor, xor_eq_zero_iff]

theorem or_and_wmask_eq_zero_iff {u v : ℕ} :
    (u ||| v) &&& wmask = 0 ↔ u % wsize = 0 ∧ v % wsize = 0 := by
  have hor : (u ||| v) % wsize = u % wsize ||| v % wsize := Nat.or_mod_two_pow (n := 3)
  rw [and_wmask, hor, Nat.or_eq_zero_iff]

/-- The first part from the front is not empty, and what comes behind it is aligned. -/
theorem prefixUp_spec {u dst length : ℕ} (hlength : 0 < length) :
    0 < prefixUp u dst length ∧ prefixUp u dst length ≤ length ∧
      (prefixUp u dst length = length ∨
        wsize ∣ u + prefixUp u dst length ∧ wsize ∣ dst + prefixUp u dst length) := by
  rw [prefixUp]
  split
  · exact ⟨hlength, Nat.le_refl _, .inl rfl⟩
  · next hpart =>
    rw [not_or, not_not, xor_and_wmask_eq_zero_iff] at hpart
    rw [and_wmask]
    have hmod := Nat.mod_lt u (show 0 < wsize by decide)
    rw [wsize] at *
    exact ⟨by omega, by omega, .inr ⟨by omega, by omega⟩⟩

/-- The first part from the back is not empty, and what comes in front of it ends aligned. -/
theorem prefixDown_spec {u dst length : ℕ} (hlength : 0 < length)
    (h : (u ||| dst) &&& wmask ≠ 0) :
    0 < prefixDown u dst length ∧ prefixDown u dst length ≤ length ∧
      (prefixDown u dst length = length ∨
        wsize ∣ u - prefixDown u dst length ∧ wsize ∣ dst - prefixDown u dst length) := by
  rw [prefixDown]
  split
  · exact ⟨hlength, Nat.le_refl _, .inl rfl⟩
  · next hpart =>
    rw [not_or, not_not, xor_and_wmask_eq_zero_iff] at hpart
    rw [Ne, or_and_wmask_eq_zero_iff] at h
    rw [and_wmask]
    have hmod := Nat.mod_lt u (show 0 < wsize by decide)
    rw [wsize] at *
    exact ⟨by omega, by omega, .inr ⟨by omega, by omega⟩⟩

/-! ## `__bcpy` is `memmove` -/

/-- **A direction of `__bcpy`**, for any loop that copies what it is asked to copy and any length of
the first part that is not 0 and leaves the pointers aligned. -/
theorem bcpyParts_eq {loop : ℕ → ℕ → Copying → Option Copying} {part : ℕ → ℕ → ℕ → ℕ}
    (moved : ℕ → Copying → Copying) {s : Copying} {length : ℕ} (hzero : moved 0 s = s)
    (hloop : ∀ w t k, k + w * t ≤ length → t = 0 ∨ (moved k s).Aligned w →
      loop w t (moved k s) = some (moved (k + w * t) s))
    (hpart : (s.src ||| s.dst) &&& wmask ≠ 0 →
      0 < part s.src s.dst length ∧ part s.src s.dst length ≤ length ∧
        (part s.src s.dst length = length ∨
          (moved (part s.src s.dst length) s).Aligned wsize)) :
    bcpyParts loop part s length = some (moved length s) := by
  -- the words and the bytes behind them, from wherever the first part has ended
  have hrest (k : ℕ) (hk : k ≤ length) (ha : k = length ∨ (moved k s).Aligned wsize) :
      ((loop wsize ((length - k) / wsize) (moved k s)).bind fun s' ↦
        loop 1 ((length - k) &&& wmask) s') = some (moved length s) := by
    have hdiv := Nat.div_add_mod (length - k) wsize
    rw [and_wmask]
    rw [hloop wsize ((length - k) / wsize) k (by omega) (ha.imp_left fun hk ↦ by
      rw [hk, Nat.sub_self, Nat.zero_div]), Option.bind_some,
      hloop 1 _ _ (by omega) (.inr Copying.aligned_one)]
    congr 2
    omega
  rw [bcpyParts]
  split
  · next h =>
    obtain ⟨hpos, hle, halign⟩ := hpart h
    have hrounds : rounds (part s.src s.dst length) = part s.src s.dst length :=
      if_neg (Nat.ne_of_gt hpos)
    have hfirst := hloop 1 (part s.src s.dst length) 0 (by omega) (.inr Copying.aligned_one)
    rw [hzero, Nat.zero_add, Nat.one_mul] at hfirst
    dsimp only
    rw [hrounds, hfirst, Option.bind_some]
    exact hrest _ hle halign
  · next h =>
    rw [not_not, or_and_wmask_eq_zero_iff] at h
    have hstart := hrest 0 (Nat.zero_le _) (.inr (by
      rw [hzero]
      exact ⟨Nat.dvd_of_mod_eq_zero h.1, Nat.dvd_of_mod_eq_zero h.2⟩))
    rwa [hzero, Nat.sub_zero] at hstart

theorem bcpyParts_up {s : Copying} {length : ℕ} (hlength : 0 < length) (h : s.dst ≤ s.src) :
    bcpyParts Copying.up prefixUp s length = some (s.advance length) := by
  refine bcpyParts_eq Copying.advance Copying.advance_zero ?_ ?_
  · rintro w t k - (rfl | ha)
    · rfl
    · rw [Copying.up_eq ha (.inl (Nat.add_le_add_right h k)),
        Copying.advance_advance (.inl h)]
  · exact fun _ ↦ prefixUp_spec hlength

theorem bcpyParts_down {s : Copying} {length : ℕ} (hlength : 0 < length) (h : s.src ≤ s.dst)
    (hend : length ≤ s.src) :
    bcpyParts Copying.down prefixDown s length = some (s.retreat length) := by
  refine bcpyParts_eq Copying.retreat Copying.retreat_zero ?_ ?_
  · rintro w t k hk (rfl | ha)
    · rfl
    · have hsrc : w * t ≤ s.src - k := by omega
      rw [Copying.down_eq ha (Nat.sub_le_sub_right h k) hsrc,
        Copying.retreat_retreat h (by omega)]
  · exact fun halign ↦ prefixDown_spec hlength halign

/-- **`__bcpy` is `memmove`**, for all addresses and any length. -/
theorem bcpy_eq_move (m : Memory) (src dst length : ℕ) :
    bcpy m src dst length = some (move m src dst length) := by
  rw [bcpy]
  split
  · next h =>
    rcases h with rfl | rfl
    · rw [move_zero]
    · rw [move_self]
  · next h =>
    rw [not_or] at h
    have hlength := Nat.pos_of_ne_zero h.1
    split
    · next hlt =>
      rw [bcpyParts_up hlength (Nat.le_of_lt hlt)]
      rfl
    · next hge =>
      rw [bcpyParts_down hlength (by dsimp only; omega) (Nat.le_add_left _ _), Option.map_some,
        Copying.retreat]
      dsimp only
      rw [Nat.add_sub_cancel, Nat.add_sub_cancel]

/-- **`__bcpy` moves the bytes**, whatever the alignment and the overlap of the two regions, and
comes to no word that is not aligned. -/
theorem bcpy_moved (m : Memory) (src dst length : ℕ) :
    ∃ m', bcpy m src dst length = some m' ∧ Moved m src dst length m' :=
  ⟨_, bcpy_eq_move m src dst length, moved_iff.2 rfl⟩

/-! ## `__vcpy` is a copy -/

/-- **`__vcpy` is `memmove`** where the destination does not begin inside the source. -/
theorem vcpy_eq_move (word : WordT) (m : Memory) {d o s : ℕ} (hd : d ≠ 0) (ho : o ≠ 0)
    (h : d ≤ o ∨ o + s ≤ d) : vcpy word m d o s = some (move m o d s) := by
  rw [vcpy]
  split
  · split
    · next halign =>
      have hdiv := Nat.div_add_mod s word.size
      have hwords : (⟨m, o, d⟩ : Copying).Aligned word.size :=
        ⟨Nat.dvd_of_mod_eq_zero halign.2, Nat.dvd_of_mod_eq_zero halign.1⟩
      rw [Copying.up_eq hwords (by dsimp only; omega), Option.bind_some,
        Copying.up_eq Copying.aligned_one
          (by simp only [Copying.src_advance, Copying.dst_advance]; omega),
        Copying.advance_advance (by dsimp only; omega), Nat.one_mul, hdiv]
      rfl
    · rw [Copying.up_eq Copying.aligned_one (by dsimp only; omega), Nat.one_mul]
      rfl
  · next hnone =>
    have hs : s = 0 := by
      by_contra hs
      exact hnone ⟨hd, ho, hs⟩
    rw [hs, move_zero]

/-- The two regions have no byte in common. -/
def NoOverlap (d o s : ℕ) : Prop := d + s ≤ o ∨ o + s ≤ d

/-- **`__vcpy` copies the bytes** of a region that does not overlap with the destination, or does
not begin below it; and without a region or a length it does nothing. -/
theorem vcpy_moved (word : WordT) (m : Memory) (d o s : ℕ) :
    (d ≠ 0 → o ≠ 0 → NoOverlap d o s ∨ d ≤ o →
      ∃ m', vcpy word m d o s = some m' ∧ Moved m o d s m') ∧
    (d = 0 ∨ o = 0 ∨ s = 0 → vcpy word m d o s = some m) := by
  constructor
  · intro hd ho h
    refine ⟨_, vcpy_eq_move word m hd ho ?_, moved_iff.2 rfl⟩
    rw [NoOverlap] at h
    omega
  · intro h
    exact if_neg (by tauto)

/-- A copy by words that overlaps. -/
theorem vcpy_moved_overlapping : ∃ m', vcpy .uint64 (fun a ↦ .ofNat a) 16 24 19 = some m' ∧
    Moved (fun a ↦ .ofNat a) 24 16 19 m' :=
  (vcpy_moved .uint64 (fun a ↦ .ofNat a) 16 24 19).1 (by decide) (by decide) (.inr (by decide))

/-! ## Copies of arrays -/

/-- The copies to the start of an array of the other modules are those of `__vcpy`. -/
theorem vcpy_overlay (word : WordT) (m : Memory) {w d o n k : ℕ} (hd : d ≠ 0) (ho : o ≠ 0)
    (h : d ≤ o ∨ o + w * n ≤ d) (hn : n ≤ k) : ∃ m', vcpy word m d o (w * n) = some m' ∧
      cells m' w d k = overlay (cells m w o n) (cells m w d k) := by
  refine ⟨_, vcpy_eq_move word m hd ho h, ?_⟩
  rw [cells_move hn, overlay, length_cells]

/-- **The pool of a session is compacted** by `__bcpy` as the model of the pool has it: if `pool` is
the array at `a`, with nodes of `w` bytes, then the `rest` nodes behind the first `count` come to
stand in front. -/
theorem bcpy_compacts {α : Type} {encode : α → List UInt8} {pool : List α} (m : Memory)
    {w a count rest : ℕ} (h : count + rest ≤ pool.length)
    (hpool : cells m w a pool.length = pool.map encode) :
    ∃ m', bcpy m (a + w * count) a (w * rest) = some m' ∧
      cells m' w a pool.length = (overlay ((pool.drop count).take rest) pool).map encode := by
  refine ⟨_, bcpy_eq_move m _ _ _, ?_⟩
  have hlength : ((pool.drop count).take rest).length = rest := by
    rw [List.length_take, List.length_drop]
    omega
  rw [cells_move (by omega), ← cells_drop_take h, hpool, overlay, hlength, List.map_append,
    List.map_take, List.map_drop, List.map_drop]

end DmmrOrbit.Funcs
