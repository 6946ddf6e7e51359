import Mathlib.Data.BitVec
import Mathlib.Data.Nat.Bitwise

/-!
# Bytes on the wire

The codec writes every multi-byte header field in network byte order through Go's
`binary.BigEndian`. A byte is a `BitVec 8`; `putUint16` and `putUint32` are the big-endian stores,
`uint16` and `uint32` the loads (each reads the first bytes of the slice it is given), and `slice`
is the Go slice expression `s[lo:hi]`. The loads invert the stores (`uint32_putUint32`), and the
stores invert the loads on slices of the right length (`putUint32_uint32`).
-/

namespace OverProto

/-- A byte of a Go `[]byte`. -/
abbrev Byte := BitVec 8

/-- `binary.BigEndian.PutUint16`: the high byte first. -/
def putUint16 (v : BitVec 16) : List Byte := [(v >>> 8).setWidth 8, v.setWidth 8]

/-- `binary.BigEndian.PutUint32`. -/
def putUint32 (v : BitVec 32) : List Byte :=
  [(v >>> 24).setWidth 8, (v >>> 16).setWidth 8, (v >>> 8).setWidth 8, v.setWidth 8]

/-- `binary.BigEndian.Uint16`: `uint16(b[1]) | uint16(b[0])<<8`. -/
def uint16 (b : List Byte) : BitVec 16 :=
  (b.getD 1 0).setWidth 16 ||| (b.getD 0 0).setWidth 16 <<< 8

/-- `binary.BigEndian.Uint32`. -/
def uint32 (b : List Byte) : BitVec 32 :=
  (b.getD 3 0).setWidth 32 ||| (b.getD 2 0).setWidth 32 <<< 8 |||
    (b.getD 1 0).setWidth 32 <<< 16 ||| (b.getD 0 0).setWidth 32 <<< 24

/-- The Go slice expression `s[lo:hi]`. -/
def slice (s : List Byte) (lo hi : Nat) : List Byte := (s.take hi).drop lo

@[simp] theorem length_putUint16 (v : BitVec 16) : (putUint16 v).length = 2 := rfl

@[simp] theorem length_putUint32 (v : BitVec 32) : (putUint32 v).length = 4 := rfl

/-! ## Loads invert stores -/

@[simp] theorem uint16_putUint16 (v : BitVec 16) : uint16 (putUint16 v) = v := by
  ext ⟨i, hi⟩
  simp only [uint16, putUint16, List.getD_cons_succ, List.getD_cons_zero, BitVec.getLsbD_or,
    BitVec.getLsbD_shiftLeft, BitVec.getLsbD_setWidth, BitVec.getLsbD_ushiftRight]
  rcases Nat.lt_or_ge i 8 with byte | byte <;>
    simp (disch := omega) [decide_eq_true, decide_eq_false, Nat.add_sub_cancel']

@[simp] theorem uint32_putUint32 (v : BitVec 32) : uint32 (putUint32 v) = v := by
  ext ⟨i, hi⟩
  simp only [uint32, putUint32, List.getD_cons_succ, List.getD_cons_zero, BitVec.getLsbD_or,
    BitVec.getLsbD_shiftLeft, BitVec.getLsbD_setWidth, BitVec.getLsbD_ushiftRight]
  rcases (show i < 8 ∨ 8 ≤ i ∧ i < 16 ∨ 16 ≤ i ∧ i < 24 ∨ 24 ≤ i by omega) with
    byte | ⟨_, _⟩ | ⟨_, _⟩ | byte <;>
    simp (disch := omega) [decide_eq_true, decide_eq_false, Nat.add_sub_cancel']

theorem putUint16_uint16 (a b : Byte) : putUint16 (uint16 [a, b]) = [a, b] := by
  simp only [uint16, putUint16, List.getD_cons_succ, List.getD_cons_zero, List.cons.injEq,
    and_true]
  constructor <;> ext ⟨i, hi⟩ <;>
    simp (disch := omega) [decide_eq_true, decide_eq_false, Nat.add_sub_cancel']

theorem putUint32_uint32 (a b c d : Byte) : putUint32 (uint32 [a, b, c, d]) = [a, b, c, d] := by
  simp only [uint32, putUint32, List.getD_cons_succ, List.getD_cons_zero, List.cons.injEq,
    and_true]
  refine ⟨?_, ?_, ?_, ?_⟩ <;> ext ⟨i, hi⟩ <;>
    simp (disch := omega) [decide_eq_true, decide_eq_false, Nat.add_sub_cancel']

theorem putUint16_uint16_of_length {s : List Byte} (two : s.length = 2) :
    putUint16 (uint16 s) = s := by
  match s, two with
  | [a, b], _ => exact putUint16_uint16 a b

theorem putUint32_uint32_of_length {s : List Byte} (four : s.length = 4) :
    putUint32 (uint32 s) = s := by
  match s, four with
  | [a, b, c, d], _ => exact putUint32_uint32 a b c d

theorem uint32_inj_of_length {s t : List Byte} (hs : s.length = 4) (ht : t.length = 4)
    (same : uint32 s = uint32 t) : s = t := by
  rw [← putUint32_uint32_of_length hs, same, putUint32_uint32_of_length ht]

theorem getLsbD_uint16 (a b : Byte) (q : Nat) :
    (uint16 [a, b]).getLsbD q = if q < 8 then b.getLsbD q else a.getLsbD (q - 8) := by
  simp only [uint16, List.getD_cons_succ, List.getD_cons_zero, BitVec.getLsbD_or,
    BitVec.getLsbD_shiftLeft, BitVec.getLsbD_setWidth]
  rcases Nat.lt_or_ge q 8 with low | high
  · simp (disch := omega) [low, decide_eq_true, decide_eq_false]
  · rcases Nat.lt_or_ge q 16 with mid | top
    · simp (disch := omega) [decide_eq_true, decide_eq_false, Nat.not_lt.mpr high, mid]
    · simp [BitVec.getLsbD_ge a (q - 8) (by omega), BitVec.getLsbD_ge b q (by omega)]

theorem getLsbD_flip (x : Byte) {j : Nat} (hj : j < 8) (q : Nat) :
    (x ^^^ BitVec.twoPow 8 j).getLsbD q = (x.getLsbD q ^^ decide (q = j)) := by
  simp [BitVec.getLsbD_twoPow, hj, eq_comm]

theorem twoPow_xor_ne (x : Byte) {j : Nat} (hj : j < 8) : x ^^^ BitVec.twoPow 8 j ≠ x := by
  intro same
  have := congrArg (BitVec.getLsbD · j) same
  simp [BitVec.getLsbD_twoPow, hj] at this

/-- Setting a clear bit of a big-endian 16-bit field raises its value. -/
theorem lt_uint16_flip {s : List Byte} (two : s.length = 2) {r j : Nat} (hr : r < 2) (hj : j < 8)
    (clear : (s.getD r 0).getLsbD j = false) :
    (uint16 s).toNat < (uint16 (s.set r (s.getD r 0 ^^^ BitVec.twoPow 8 j))).toNat := by
  match s, two with
  | [a, b], _ =>
    rcases (show r = 0 ∨ r = 1 by omega) with rfl | rfl
    · apply Nat.lt_of_testBit (8 + j) <;> simp_all [BitVec.testBit_toNat, getLsbD_uint16, getLsbD_flip]
      intro q above
      split_ifs <;> simp (disch := omega) [decide_eq_false]
    · apply Nat.lt_of_testBit j <;> simp_all [BitVec.testBit_toNat, getLsbD_uint16, getLsbD_flip]
      intro q above
      split_ifs <;> simp (disch := omega) [decide_eq_false]

/-! ## Slices -/

theorem slice_eq_take_drop (s : List Byte) (lo hi : Nat) :
    slice s lo hi = (s.drop lo).take (hi - lo) :=
  List.drop_take hi lo s

@[simp] theorem length_slice (s : List Byte) (lo hi : Nat) :
    (slice s lo hi).length = min hi s.length - lo := by
  simp [slice]

theorem slice_append_slice (s : List Byte) {a b c : Nat} (hab : a ≤ b) (hbc : b ≤ c) :
    slice s a b ++ slice s b c = slice s a c := by
  simp only [slice_eq_take_drop]
  rw [show c - a = (b - a) + (c - b) by omega, List.take_add, List.drop_drop,
    Nat.add_sub_cancel' hab]

theorem take_append_slice (s : List Byte) {a b : Nat} (hab : a ≤ b) :
    s.take a ++ slice s a b = s.take b := by
  rw [slice, ← Nat.min_eq_left hab, ← List.take_take, Nat.min_eq_left hab, List.take_append_drop]

theorem slice_drop (s : List Byte) (i lo hi : Nat) :
    slice (s.drop i) lo hi = slice s (i + lo) (i + hi) := by
  rw [slice_eq_take_drop, slice_eq_take_drop, List.drop_drop, Nat.add_sub_add_left, Nat.add_comm]

theorem take_drop_eq_slice (s : List Byte) (i n : Nat) : (s.drop i).take n = slice s i (i + n) := by
  rw [slice_eq_take_drop, Nat.add_sub_cancel_left]

theorem slice_succ (s : List Byte) {i : Nat} (hi : i < s.length) :
    slice s i (i + 1) = [s.getD i 0] := by
  rw [slice_eq_take_drop, Nat.add_sub_cancel_left, List.drop_eq_getElem_cons hi]
  simp only [List.take_succ_cons, List.take_zero, List.getD_eq_getElem?_getD,
    List.getElem?_eq_getElem hi, Option.getD_some]

theorem slice_append_left (a b : List Byte) {lo hi : Nat} (within : hi ≤ a.length) :
    slice (a ++ b) lo hi = slice a lo hi := by
  simp [slice, List.take_append_of_le_length within]

theorem slice_append_right (a b : List Byte) (lo hi : Nat) :
    slice (a ++ b) (a.length + lo) (a.length + hi) = slice b lo hi := by
  simp [slice, List.take_append, List.drop_append]

theorem slice_zero_length (a b : List Byte) : slice (a ++ b) 0 a.length = a := by
  simp [slice]

theorem slice_set_outside (l : List Byte) {lo hi k : Nat} (x : Byte) (outside : k < lo ∨ hi ≤ k) :
    slice (l.set k x) lo hi = slice l lo hi := by
  rw [slice, List.set_take, slice]
  rcases outside with before | after
  · rw [List.drop_set, if_pos before]
  · rw [List.set_eq_of_length_le (by simp; omega)]

theorem slice_set_inside (l : List Byte) {lo hi k : Nat} (x : Byte) (hlo : lo ≤ k) :
    slice (l.set k x) lo hi = (slice l lo hi).set (k - lo) x := by
  rw [slice, List.set_take, List.drop_set, if_neg (by omega), slice]

theorem getD_slice (l : List Byte) {lo hi i : Nat} (within : i < hi - lo) :
    (slice l lo hi).getD i 0 = l.getD (lo + i) 0 := by
  rw [slice_eq_take_drop, List.getD_eq_getElem?_getD, List.getD_eq_getElem?_getD,
    List.getElem?_take_of_lt within, List.getElem?_drop]

end OverProto
