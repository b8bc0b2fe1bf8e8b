import Mathlib.Data.UInt
import DmmrOrbit.Lib.Crc

/-!
# Checksums

`generate_crc32_table`, `crc32_buffer` and `crc32_file` of `funcs.h`.  The table is a static array:
until it has been generated, every entry is zero, and checksums are computed with the table there
is.

`crc32_agree` says that with the table, both functions compute the CRC-32 of the bytes, however
`fread` cuts the file into blocks.
-/

set_option autoImplicit false

namespace DmmrOrbit

/-- `crc32_table`. -/
abbrev CrcTable := UInt8 → UInt32

/-- One round of the inner loop of `generate_crc32_table`. -/
def crcShift (crc : UInt32) : UInt32 :=
  if crc &&& 1 ≠ 0 then (crc >>> 1) ^^^ 0xEDB88320 else crc >>> 1

/-- `generate_crc32_table`. -/
def generateCrc32Table : CrcTable := fun i ↦ crcShift^[8] i.toUInt32

/-- One byte of `crc32_buffer` and of `crc32_file`. -/
def crcByte (table : CrcTable) (crc : UInt32) (b : UInt8) : UInt32 :=
  (crc >>> 8) ^^^ table ((crc ^^^ b.toUInt32) &&& 0xFF).toUInt8

/-- `crc32_file`: zero for a file that cannot be opened.  The loop over the blocks that `fread`
returns is one loop over the bytes of the file. -/
def crc32File (table : CrcTable) : Option (List UInt8) → UInt32
  | none => 0
  | some content => content.foldl (crcByte table) 0xFFFFFFFF ^^^ 0xFFFFFFFF

/-- The check value of the CRC: that of the digits from 1 to 9. -/
example : crc32File generateCrc32Table
    (some [0x31, 0x32, 0x33, 0x34, 0x35, 0x36, 0x37, 0x38, 0x39]) = 0xcbf43926 := by
  decide +kernel

/-! ## Buffers and blocks -/

/-- `crc32_buffer`. -/
def crc32Buffer (table : CrcTable) (data : List UInt8) : UInt32 :=
  data.foldl (crcByte table) 0xFFFFFFFF ^^^ 0xFFFFFFFF

/-- The `while` of `crc32_file`, with what the calls of `fread` have put into `buf`. -/
def crc32Blocks (table : CrcTable) : UInt32 → List (List UInt8) → UInt32
  | crc, [] => crc
  | crc, buf :: rest =>
    if buf.length > 0 then crc32Blocks table (buf.foldl (crcByte table) crc) rest else crc

/-- `crc32_file`, block by block. -/
def crc32FileBlocks (table : CrcTable) : Option (List (List UInt8)) → UInt32
  | none => 0
  | some blocks => crc32Blocks table 0xFFFFFFFF blocks ^^^ 0xFFFFFFFF

/-- The blocks that `fread` returns of a file, up to the end of it. -/
structure Freads (content : List UInt8) where
  blocks : List (List UInt8)
  flatten_eq : blocks.flatten = content
  nonempty : ∀ b ∈ blocks, b ≠ []
  length_le : ∀ b ∈ blocks, b.length ≤ 1024

/-- The CRC-32, bit by bit. -/
def crc32Bitwise (data : List UInt8) : UInt32 :=
  .ofBitVec (Crc.checksum 0xEDB88320#32 0xFFFFFFFF#32 0xFFFFFFFF#32 data)

theorem crc32Blocks_eq (table : CrcTable) (crc : UInt32) {blocks : List (List UInt8)}
    (h : ∀ b ∈ blocks, b ≠ []) :
    crc32Blocks table crc blocks = blocks.flatten.foldl (crcByte table) crc := by
  induction blocks generalizing crc with
  | nil => rfl
  | cons buf rest ih =>
    rw [List.forall_mem_cons] at h
    rw [crc32Blocks, if_pos (List.length_pos_iff.2 h.1), ih _ h.2, List.flatten_cons,
      List.foldl_append]

/-- The blocks make no difference. -/
theorem crc32FileBlocks_eq (table : CrcTable) {content : List UInt8} (f : Freads content) :
    crc32FileBlocks table (some f.blocks) = crc32File table (some content) := by
  rw [crc32FileBlocks, crc32Blocks_eq table _ f.nonempty, f.flatten_eq]
  rfl

/-! ## The table -/

/-- A round of `generate_crc32_table` is a shift of the register. -/
theorem toBitVec_crcShift (crc : UInt32) :
    (crcShift crc).toBitVec = Crc.shift 0xEDB88320#32 crc.toBitVec := by
  have hbit : crc &&& 1 ≠ 0 ↔ crc.toBitVec.getLsbD 0 = true := by
    rw [Ne, ← UInt32.toBitVec_inj, UInt32.toBitVec_and]
    have hone : crc.toBitVec &&& 1#32 = (BitVec.ofBool (crc.toBitVec.getLsbD 0)).setWidth 32 :=
      BitVec.and_one_eq_setWidth_ofBool_getLsbD
    show ¬ crc.toBitVec &&& 1#32 = 0#32 ↔ _
    rw [hone]
    cases crc.toBitVec.getLsbD 0 <;> decide
  rw [crcShift, Crc.shift, Crc.feedBit, Bool.xor_false]
  by_cases h : crc &&& 1 ≠ 0
  · rw [if_pos h, if_pos (hbit.1 h)]
    rfl
  · rw [if_neg h, if_neg (mt hbit.2 h), BitVec.xor_zero]
    rfl

theorem toBitVec_iterate_crcShift (k : ℕ) (crc : UInt32) :
    (crcShift^[k] crc).toBitVec = (Crc.shift 0xEDB88320#32)^[k] crc.toBitVec := by
  induction k generalizing crc with
  | zero => rfl
  | succ k ih =>
    rw [Function.iterate_succ_apply, Function.iterate_succ_apply, ih, toBitVec_crcShift]

/-- **A step with the table** takes the eight bits of the byte. -/
theorem toBitVec_crcByte (crc : UInt32) (b : UInt8) :
    (crcByte generateCrc32Table crc b).toBitVec =
      Crc.feed 0xEDB88320#32 8 b.toNat crc.toBitVec := by
  have hbyte : b.toUInt32.toBitVec = BitVec.ofNat 32 b.toNat := by
    apply BitVec.eq_of_toNat_eq
    simp
  have hdown : BitVec.ofNat 32 b.toNat >>> 8 = 0#32 := by
    have hlt := b.toNat_lt
    apply BitVec.eq_of_toNat_eq
    rw [BitVec.toNat_ushiftRight, BitVec.toNat_ofNat, BitVec.toNat_ofNat,
      Nat.shiftRight_eq_div_pow]
    omega
  have hindex : ((crc ^^^ b.toUInt32) &&& 0xFF).toUInt8.toUInt32.toBitVec =
      BitVec.ofNat 32 ((crc.toBitVec ^^^ BitVec.ofNat 32 b.toNat).toNat % 2 ^ 8) := by
    rw [← hbyte, ← UInt32.toBitVec_xor]
    apply BitVec.eq_of_toNat_eq
    show ((crc ^^^ b.toUInt32) &&& 0xFF).toNat % 256 = (crc ^^^ b.toUInt32).toNat % 2 ^ 8 % 2 ^ 32
    have hand : ((crc ^^^ b.toUInt32) &&& 0xFF).toNat = (crc ^^^ b.toUInt32).toNat % 2 ^ 8 :=
      (UInt32.toNat_and _ _).trans (Nat.and_two_pow_sub_one_eq_mod _ 8)
    rw [hand]
    omega
  rw [Crc.feed_eq _ (by decide) b.toNat_lt, Crc.iterate_shift_eq, BitVec.ushiftRight_xor_distrib,
    hdown, BitVec.xor_zero, ← hindex, crcByte, UInt32.toBitVec_xor, generateCrc32Table,
    toBitVec_iterate_crcShift]
  rfl

theorem toBitVec_foldl_crcByte (crc : UInt32) (data : List UInt8) :
    (data.foldl (crcByte generateCrc32Table) crc).toBitVec =
      data.foldl (fun crc b ↦ Crc.feed 0xEDB88320#32 8 b.toNat crc) crc.toBitVec := by
  induction data generalizing crc with
  | nil => rfl
  | cons b data ih => rw [List.foldl_cons, List.foldl_cons, ← toBitVec_crcByte, ih]

theorem crc32Buffer_eq (data : List UInt8) :
    crc32Buffer generateCrc32Table data = crc32Bitwise data := by
  apply UInt32.toBitVec_inj.1
  rw [crc32Buffer, UInt32.toBitVec_xor, toBitVec_foldl_crcByte]
  rfl

/-- **The checksums agree.**  With the table, whatever the bytes and however `fread` returns them,
`crc32_file` and `crc32_buffer` both compute the CRC-32. -/
theorem crc32_agree (content : List UInt8) (f : Freads content) :
    crc32FileBlocks generateCrc32Table (some f.blocks) = crc32Buffer generateCrc32Table content ∧
      crc32Buffer generateCrc32Table content = crc32Bitwise content :=
  ⟨crc32FileBlocks_eq generateCrc32Table f, crc32Buffer_eq content⟩

/-- The check value `123456789`, read in two blocks. -/
example : crc32FileBlocks generateCrc32Table
    (some [[0x31, 0x32, 0x33, 0x34, 0x35], [0x36, 0x37, 0x38, 0x39]]) = 0xCBF43926 := by
  decide +kernel

end DmmrOrbit
