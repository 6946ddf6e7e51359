import Mathlib.Logic.Function.Iterate
import OverProto.Core.Wire

/-!
# The CRC32 digest

`crc32Table i` is the entry `initCRC32Table` stores for `i`: eight passes of the shift-and-xor
loop `tableStep` over the reversed IEEE 802.3 polynomial. `Crc32Context.update` folds the table
lookup over the bytes it is given, and `final` applies the output xor.

The table step is linear over GF(2) (`tableStep_xor`) and injective (`tableStep_injective`: bit
31 of the result is the bit shifted out). From linearity the table lookup of one byte is eight
plain steps (`byteStep_eq`), so each byte of the digest is an injective function of both the
running register and the byte. Hence two messages of one length that differ in exactly one byte
have different digests (`computeCrc32_set_ne`), which is what detects a single flipped bit.
-/

namespace OverProto

/-- The reversed IEEE 802.3 polynomial of `initCRC32Table`. -/
def poly : BitVec 32 := 0xEDB88320

/-- One pass of the inner loop of `initCRC32Table`. -/
def tableStep (crc : BitVec 32) : BitVec 32 :=
  if crc &&& 1 != 0 then (crc >>> 1) ^^^ poly else crc >>> 1

/-- `crc32Table[i]`: eight passes of `tableStep` from `uint32(i)`. -/
def crc32Table (i : Nat) : BitVec 32 := tableStep^[8] (BitVec.ofNat 32 i)

/-- The body of the loop of `Update`: one table lookup per byte. -/
def byteStep (crc : BitVec 32) (b : Byte) : BitVec 32 :=
  (crc >>> 8) ^^^ crc32Table ((crc ^^^ b.setWidth 32) &&& 0xFF).toNat

/-- `CRC32Context`: the running register. -/
structure Crc32Context where
  crc : BitVec 32
deriving DecidableEq, Repr

/-- `NewCRC32`: the register starts at `0xFFFFFFFF`. -/
def newCrc32 : Crc32Context := ⟨0xFFFFFFFF⟩

/-- `CRC32Context.Update`. -/
def Crc32Context.update (ctx : Crc32Context) (data : List Byte) : Crc32Context :=
  ⟨data.foldl byteStep ctx.crc⟩

/-- `CRC32Context.Final`: the register xor `0xFFFFFFFF`. -/
def Crc32Context.final (ctx : Crc32Context) : BitVec 32 := ctx.crc ^^^ 0xFFFFFFFF

/-- `ComputeCRC32`. -/
def computeCrc32 (data : List Byte) : BitVec 32 := (newCrc32.update data).final

theorem Crc32Context.update_update (ctx : Crc32Context) (a b : List Byte) :
    (ctx.update a).update b = ctx.update (a ++ b) := by
  simp [Crc32Context.update, List.foldl_append]

theorem final_update_update (a b : List Byte) :
    ((newCrc32.update a).update b).final = computeCrc32 (a ++ b) := by
  rw [Crc32Context.update_update, computeCrc32]

/-! ## The table step is linear and injective -/

theorem and_one_ne_zero (x : BitVec 32) : (x &&& 1 != 0) = x.getLsbD 0 := by
  show (x &&& 1#32 != 0) = _
  rw [BitVec.and_one_eq_setWidth_ofBool_getLsbD]
  cases x.getLsbD 0 <;> decide

theorem tableStep_eq (x : BitVec 32) :
    tableStep x = (x >>> 1) ^^^ (if x.getLsbD 0 then poly else 0) := by
  rw [tableStep, and_one_ne_zero]
  split <;> simp

theorem xor_right_cancel {x y c : BitVec 32} (same : x ^^^ c = y ^^^ c) : x = y := by
  simpa [BitVec.xor_assoc, BitVec.xor_self] using congrArg (· ^^^ c) same

theorem tableStep_xor (x y : BitVec 32) : tableStep (x ^^^ y) = tableStep x ^^^ tableStep y := by
  simp only [tableStep_eq, BitVec.getLsbD_xor, BitVec.ushiftRight_xor_distrib]
  cases x.getLsbD 0 <;> cases y.getLsbD 0 <;>
    simp only [Bool.false_xor, Bool.true_xor, Bool.xor_false, Bool.not_true, Bool.not_false,
      ite_true, ite_false, Bool.false_eq_true, BitVec.xor_zero] <;> ac_nf
  rw [← BitVec.xor_assoc, BitVec.xor_self, BitVec.zero_xor]

/-- The polynomial has bit 31 set and a shifted register has it clear, so bit 31 of a step is
the bit the step shifted out. -/
theorem getLsbD_tableStep_31 (x : BitVec 32) : (tableStep x).getLsbD 31 = x.getLsbD 0 := by
  rw [tableStep_eq]
  cases x.getLsbD 0 <;> simp [poly]

theorem tableStep_injective : Function.Injective tableStep := by
  intro x y same
  have low : x.getLsbD 0 = y.getLsbD 0 := by
    rw [← getLsbD_tableStep_31, same, getLsbD_tableStep_31]
  rw [tableStep_eq, tableStep_eq, low] at same
  have shifted := xor_right_cancel same
  ext ⟨i, hi⟩
  cases i with
  | zero => exact low
  | succ i => simpa [Nat.add_comm 1 i, hi] using congrArg (BitVec.getLsbD · i) shifted

theorem iterate_tableStep_xor (n : Nat) (x y : BitVec 32) :
    tableStep^[n] (x ^^^ y) = tableStep^[n] x ^^^ tableStep^[n] y := by
  induction n generalizing x y with
  | zero => rfl
  | succ n ih => simp only [Function.iterate_succ_apply, tableStep_xor, ih]

/-- A register whose low byte is clear goes through up to eight steps as a plain shift. -/
theorem iterate_tableStep_of_low_clear (x : BitVec 32) (n : Nat) (hn : n ≤ 8)
    (clear : ∀ i < 8, x.getLsbD i = false) : tableStep^[n] x = x >>> n := by
  induction n with
  | zero => simp
  | succ n ih =>
    rw [Function.iterate_succ_apply', ih (by omega), tableStep_eq, BitVec.shiftRight_add]
    simp [clear n (by omega)]

/-! ## The table lookup is eight bit steps -/

theorem getLsbD_lowMask (i : Nat) : (255#32).getLsbD i = decide (i < 8) := by
  rw [show (255#32) = BitVec.ofNat 32 (2 ^ 8 - 1) from rfl, BitVec.getLsbD_ofNat,
    Nat.testBit_two_pow_sub_one]
  by_cases h : i < 8 <;> simp [h]
  omega

theorem getLsbD_highMask (i : Nat) :
    (4294967040#32).getLsbD i = (decide (i < 32) && !decide (i < 8)) := by
  rw [show (4294967040#32) = ~~~255#32 by decide, BitVec.getLsbD_not, getLsbD_lowMask]

/-- The table lookup of `Update` is eight steps of the bitwise loop on the register xor the
byte: the high 24 bits only shift, and the low byte is what the table holds. -/
theorem byteStep_eq (crc : BitVec 32) (b : Byte) :
    byteStep crc b = tableStep^[8] (crc ^^^ b.setWidth 32) := by
  have split : crc ^^^ b.setWidth 32 =
      (crc &&& 0xFFFFFF00) ^^^ ((crc ^^^ b.setWidth 32) &&& 0xFF) := by
    ext ⟨i, hi⟩
    by_cases low : i < 8 <;>
      simp (disch := omega) [low, hi, getLsbD_lowMask, getLsbD_highMask, decide_eq_true,
        decide_eq_false]
  have high : tableStep^[8] (crc &&& 0xFFFFFF00) = crc >>> 8 := by
    rw [iterate_tableStep_of_low_clear _ 8 le_rfl (fun i hi => by simp [hi, getLsbD_highMask])]
    ext ⟨i, hi⟩
    simp (disch := omega) [getLsbD_highMask, decide_eq_true, decide_eq_false]
    exact BitVec.lt_of_getLsbD
  rw [split, iterate_tableStep_xor, high, byteStep, crc32Table, BitVec.ofNat_toNat,
    BitVec.setWidth_eq]

/-! ## One changed byte changes the digest -/

theorem byteStep_injective_left (b : Byte) : Function.Injective (byteStep · b) := by
  intro x y same
  simp only [byteStep_eq] at same
  exact xor_right_cancel ((tableStep_injective.iterate 8) same)

theorem byteStep_injective_right (crc : BitVec 32) : Function.Injective (byteStep crc) := by
  intro a b same
  simp only [byteStep_eq] at same
  have inner := (tableStep_injective.iterate 8) same
  rw [BitVec.xor_comm crc, BitVec.xor_comm crc] at inner
  have wide := congrArg BitVec.toNat (xor_right_cancel inner)
  simp only [BitVec.toNat_setWidth] at wide
  have := a.isLt
  have := b.isLt
  exact BitVec.eq_of_toNat_eq (by omega)

theorem foldl_byteStep_injective (data : List Byte) :
    Function.Injective (fun crc => data.foldl byteStep crc) := by
  induction data with
  | nil => exact fun _ _ => id
  | cons b rest ih => exact fun x y same => byteStep_injective_left b (ih same)

/-- Two messages of one length that differ in exactly one byte have different digests. -/
theorem computeCrc32_set_ne (data : List Byte) {k : Nat} (hk : k < data.length) {b : Byte}
    (changed : b ≠ data[k]) : computeCrc32 (data.set k b) ≠ computeCrc32 data := by
  have around (c : Byte) : computeCrc32 (data.take k ++ c :: data.drop (k + 1)) =
      ((data.drop (k + 1)).foldl byteStep
        (byteStep ((data.take k).foldl byteStep 0xFFFFFFFF) c)) ^^^ 0xFFFFFFFF := by
    simp [computeCrc32, Crc32Context.final, Crc32Context.update, newCrc32, List.foldl_append]
  have whole : data = data.take k ++ data[k] :: data.drop (k + 1) := by
    rw [← List.drop_eq_getElem_cons, List.take_append_drop]
  rw [List.set_eq_take_append_cons_drop, if_pos hk]
  conv_rhs => rw [whole]
  rw [around, around]
  intro same
  exact changed (byteStep_injective_right _ (foldl_byteStep_injective _ (xor_right_cancel same)))

/-! ## The bitwise reference -/

/-- One step of the bitwise CRC-32 of IEEE 802.3 in its reflected form: shift right by one,
then xor `0xEDB88320` if the bit shifted out was 1. -/
def refStep (crc : BitVec 32) : BitVec 32 :=
  if crc.getLsbD 0 then (crc >>> 1) ^^^ 0xEDB88320 else crc >>> 1

/-- The bitwise CRC-32: from `0xFFFFFFFF`, xor each byte into the low 8 bits and take eight
steps, then xor `0xFFFFFFFF`. -/
def crc32Ref (data : List Byte) : BitVec 32 :=
  data.foldl (fun crc b => refStep^[8] (crc ^^^ b.setWidth 32)) 0xFFFFFFFF ^^^ 0xFFFFFFFF

set_option maxRecDepth 8000 in
example : crc32Ref [0x31, 0x32, 0x33, 0x34, 0x35, 0x36, 0x37, 0x38, 0x39] = 0xCBF43926 := by
  decide

theorem refStep_eq_tableStep : refStep = tableStep := by
  funext x
  rw [refStep, tableStep_eq]
  cases x.getLsbD 0 <;> simp [poly]

/-- `Update` over chunks in turn is `Update` over their concatenation. -/
theorem foldl_update (ctx : Crc32Context) (chunks : List (List Byte)) :
    chunks.foldl Crc32Context.update ctx = ctx.update chunks.flatten := by
  induction chunks generalizing ctx with
  | nil => rfl
  | cons chunk rest ih => rw [List.foldl_cons, ih, Crc32Context.update_update, List.flatten_cons]

/-- `NewCRC32`, `Update` over the chunks of a split and `Final` give `ComputeCRC32` of the whole,
and that is the bitwise CRC-32: the table holds eight bitwise steps for every register value. -/
theorem crc32_chunks_eq_ref (chunks : List (List Byte)) :
    (chunks.foldl Crc32Context.update newCrc32).final = computeCrc32 chunks.flatten ∧
      computeCrc32 chunks.flatten = crc32Ref chunks.flatten := by
  refine ⟨by rw [foldl_update, computeCrc32], ?_⟩
  simp only [computeCrc32, Crc32Context.final, Crc32Context.update, newCrc32, crc32Ref,
    refStep_eq_tableStep, ← byteStep_eq]

end OverProto
