import ModbusRtu.Kernel.HalfwordBytes
import ModbusRtu.Kernel.ShiftRegister

/-!
# The check of nanomodbus.c

nmbs_crc_calc takes the bytes of a message into a 16-bit register, lowest bit
first, and returns the register with its two bytes exchanged. Since put_2 and
get_2 send the high byte of a halfword first, the low byte of the register
travels first, and a message followed by its check takes the register to zero.

A checked frame is a message with its check behind it. Two different checked
frames of one length that fit into the message buffer differ in at least four
bits, in an even number of bits, and in two bits at least sixteen apart. No
transmission error of at most three bits, of an odd number of bits, or within
sixteen neighbouring bits turns one into another.
-/

namespace ModbusRtu
namespace Port

open Kernel

section Definitions

/-- One pass of the bit loop of nmbs_crc_calc. -/
def crcShift (crc : UInt16) : UInt16 :=
  if crc &&& 0x0001 ≠ 0 then (crc >>> 1) ^^^ 0xA001 else crc >>> 1

/-- One pass of the byte loop of nmbs_crc_calc. -/
def crcByte (crc : UInt16) (data : UInt8) : UInt16 :=
  crcShift^[8] (crc ^^^ data.toUInt16)

/-- The register of nmbs_crc_calc behind its byte loop. -/
def crcRegister (data : List UInt8) : UInt16 :=
  data.foldl crcByte 0xFFFF

/-- nmbs_crc_calc -/
def nmbsCrcCalc (data : List UInt8) : UInt16 :=
  (crcRegister data <<< 8) ||| (crcRegister data >>> 8)

/-- A message followed by its check as put_2 stores it. -/
def withCheck (crcCalc : List UInt8 → UInt16) (body : List UInt8) :
    List UInt8 :=
  body ++ wireBytes (crcCalc body)

/-- The frames that recv_msg_footer finds in order. -/
def Checked (crcCalc : List UInt8 → UInt16) (frame : List UInt8) : Prop :=
  ∃ body, frame = withCheck crcCalc body

/-- The bits of a byte string as the line carries them, lowest first. -/
def lineBits (bytes : List UInt8) : List Bool :=
  bytes.flatMap fun b => lowBits b.toBitVec 8

/-- Where the bits of two byte strings differ. -/
def bitErrors (f g : List UInt8) : List Bool :=
  List.zipWith xor (lineBits f) (lineBits g)

end Definitions

section Register

/-- The generator of the register. -/
def crcGenerator : BitVec 16 := 0xA001#16

theorem toBitVec_crcShift (crc : UInt16) :
    (crcShift crc).toBitVec = shiftStep crcGenerator crc.toBitVec := by
  have hlow : crc &&& 0x0001 ≠ 0 ↔ crc.toBitVec.getLsbD 0 = true := by
    rw [ne_eq, ← UInt16.toBitVec_inj, ← BitVec.toNat_inj]
    have hone : (crc &&& 0x0001).toBitVec.toNat = crc.toNat % 2 := by
      simp [Nat.and_one_is_mod]
    rw [hone]
    simp [BitVec.getLsbD, Nat.testBit_zero]
  simp only [crcShift, shiftStep, hlow, crcGenerator]
  cases crc.toBitVec.getLsbD 0 <;> simp

theorem toBitVec_iterate_crcShift (crc : UInt16) (n : Nat) :
    (crcShift^[n] crc).toBitVec =
      (shiftStep crcGenerator)^[n] crc.toBitVec := by
  induction n generalizing crc with
  | zero =>
      rfl
  | succ n ih =>
      rw [Function.iterate_succ_apply, Function.iterate_succ_apply, ih,
        toBitVec_crcShift]

theorem lowBits_setWidth (b : UInt8) :
    lowBits (b.toBitVec.setWidth 16) 8 = lowBits b.toBitVec 8 := by
  refine List.map_congr_left fun i hi => ?_
  have hi8 : i < 8 := by
    exact List.mem_range.mp hi
  have hi16 : i < 16 := by
    omega
  simp [hi16]

/-- Taking a byte in is feeding its bits, lowest first. -/
theorem toBitVec_crcByte (crc : UInt16) (data : UInt8) :
    (crcByte crc data).toBitVec =
      feedBits crcGenerator crc.toBitVec (lowBits data.toBitVec 8) := by
  have hupper : data.toBitVec.setWidth 16 >>> 8 = 0#16 := by
    apply BitVec.eq_of_getLsbD_eq
    intro i _
    rw [BitVec.getLsbD_ushiftRight, BitVec.getLsbD_setWidth,
      BitVec.getLsbD_of_ge data.toBitVec (8 + i) (by omega)]
    simp
  rw [crcByte, toBitVec_iterate_crcShift, UInt16.toBitVec_xor,
    UInt8.toBitVec_toUInt16, iterate_shiftStep_xor, hupper,
    BitVec.xor_zero, lowBits_setWidth]

@[simp] theorem lineBits_nil : lineBits [] = [] := by
  rfl

theorem lineBits_append (xs ys : List UInt8) :
    lineBits (xs ++ ys) = lineBits xs ++ lineBits ys := by
  simp [lineBits]

@[simp] theorem length_lineBits (bytes : List UInt8) :
    (lineBits bytes).length = 8 * bytes.length := by
  induction bytes with
  | nil =>
      rfl
  | cons b bytes ih =>
      simp only [lineBits, List.flatMap_cons, List.length_append,
        length_lowBits, List.length_cons] at ih ⊢
      omega

theorem toBitVec_foldl_crcByte (crc : UInt16) (data : List UInt8) :
    (data.foldl crcByte crc).toBitVec =
      feedBits crcGenerator crc.toBitVec (lineBits data) := by
  induction data generalizing crc with
  | nil =>
      rfl
  | cons b data ih =>
      rw [List.foldl_cons, ih, toBitVec_crcByte, ← feedBits_append]
      rfl

end Register

section CheckBytes

/-- The value returned has the two bytes of the register exchanged. -/
theorem nmbsCrcCalc_eq_halfword (data : List UInt8) :
    nmbsCrcCalc data =
      halfword (loByte (crcRegister data)) (hiByte (crcRegister data)) := by
  have hx := (crcRegister data).toNat_lt
  refine UInt16.toNat_inj.mp ?_
  rw [halfword_toNat, loByte_toNat, hiByte_toNat]
  have h8 : UInt16.toNat 8 % 16 = 8 := by
    rfl
  have hleft :
      (crcRegister data).toNat <<< 8 % 2 ^ 16 =
        ((crcRegister data).toNat % 256) <<< 8 := by
    simp only [Nat.shiftLeft_eq]
    omega
  simp only [nmbsCrcCalc, UInt16.toNat_or, UInt16.toNat_shiftLeft,
    UInt16.toNat_shiftRight, h8]
  rw [hleft, Nat.shiftRight_eq_div_pow,
    ← Nat.shiftLeft_add_eq_or_of_lt (by omega), Nat.shiftLeft_eq]

/-- The bits of a halfword are those of its low and then its high byte. -/
theorem lowBits_halfword (hi lo : UInt8) :
    lowBits (halfword hi lo).toBitVec 16 = lineBits [lo, hi] := by
  have hsplit : List.range 16 =
      List.range 8 ++ (List.range 8).map (8 + ·) := by
    rfl
  simp only [lowBits, lineBits, hsplit, List.map_append, List.map_map,
    List.flatMap_cons, List.flatMap_nil, List.append_nil, halfword]
  refine congrArg₂ _ ?_ ?_
  · refine List.map_congr_left fun i hi => ?_
    have hi8 : i < 8 := by
      exact List.mem_range.mp hi
    have hi16 : i < 16 := by
      omega
    simp [hi8, hi16]
  · refine List.map_congr_left fun i hi => ?_
    have hi8 : i < 8 := by
      exact List.mem_range.mp hi
    have hi16 : 8 + i < 16 := by
      omega
    simp [hi8, hi16]

theorem halfword_hiByte_loByte (x : UInt16) :
    halfword (hiByte x) (loByte x) = x := by
  refine UInt16.toNat_inj.mp ?_
  rw [halfword_toNat, hiByte_toNat, loByte_toNat]
  omega

/-- On the line a check is the register, lowest bit first. -/
theorem lineBits_check (data : List UInt8) :
    lineBits (wireBytes (nmbsCrcCalc data)) =
      lowBits (crcRegister data).toBitVec 16 := by
  rw [wireBytes, nmbsCrcCalc_eq_halfword, hiByte_halfword, loByte_halfword,
    ← lowBits_halfword, halfword_hiByte_loByte]

theorem crcGenerator_msb : crcGenerator.msb = true := by
  rfl

/-- The frames whose bits take the register to zero are the checked ones. -/
theorem checked_iff_feedBits {frame : List UInt8} :
    Checked nmbsCrcCalc frame ↔
      2 ≤ frame.length ∧
        feedBits crcGenerator 0xFFFF#16 (lineBits frame) = 0#16 := by
  have hbody : ∀ body x,
      feedBits crcGenerator 0xFFFF#16 (lineBits (body ++ x)) =
        feedBits crcGenerator (crcRegister body).toBitVec (lineBits x) := by
    intro body x
    rw [lineBits_append, feedBits_append, crcRegister,
      toBitVec_foldl_crcByte]
    rfl
  constructor
  · rintro ⟨body, rfl⟩
    refine ⟨by simp [withCheck, wireBytes], ?_⟩
    rw [withCheck, hbody, lineBits_check]
    exact (feedBits_lowBits_eq_zero_iff crcGenerator_msb).mpr rfl
  · rintro ⟨hlen, hzero⟩
    obtain ⟨body, tail, rfl, htail⟩ :
        ∃ body tail, frame = body ++ tail ∧ tail.length = 2 :=
      ⟨frame.take (frame.length - 2), frame.drop (frame.length - 2),
        (List.take_append_drop _ _).symm, by simp; omega⟩
    obtain ⟨lo, hi, rfl⟩ := List.length_eq_two.mp htail
    refine ⟨body, congrArg (body ++ ·) ?_⟩
    rw [hbody, ← lowBits_halfword,
      feedBits_lowBits_eq_zero_iff crcGenerator_msb,
      UInt16.toBitVec_inj] at hzero
    rw [wireBytes, nmbsCrcCalc_eq_halfword, hzero, loByte_halfword,
      hiByte_halfword, hiByte_halfword, loByte_halfword]

end CheckBytes

section Distance

/-- Equal bits are equal bytes. -/
theorem lineBits_injective {f g : List UInt8}
    (hlen : f.length = g.length)
    (h : lineBits f = lineBits g) :
    f = g := by
  induction f generalizing g with
  | nil =>
      exact (List.length_eq_zero_iff.mp hlen.symm).symm
  | cons b f ih =>
      cases g with
      | nil =>
          cases hlen
      | cons c g =>
          have hparts :
              lowBits b.toBitVec 8 ++ lineBits f =
                lowBits c.toBitVec 8 ++ lineBits g := by
            exact h
          obtain ⟨hbyte, hrest⟩ := List.append_inj hparts (by simp)
          have hbc : b = c := by
            apply UInt8.eq_of_toBitVec_eq
            apply BitVec.eq_of_getLsbD_eq
            intro i hi
            exact List.map_inj_left.mp hbyte i (List.mem_range.mpr hi)
          rw [hbc, ih (Nat.succ.inj hlen) hrest]

theorem length_bitErrors {f g : List UInt8}
    (hlen : f.length = g.length) :
    (bitErrors f g).length = 8 * f.length := by
  simp [bitErrors, hlen]

/-- Lists that differ nowhere are equal. -/
theorem eq_of_not_mem_zipWith_xor {xs ys : List Bool}
    (hlen : xs.length = ys.length)
    (h : true ∉ List.zipWith xor xs ys) :
    xs = ys := by
  induction xs generalizing ys with
  | nil =>
      exact (List.length_eq_zero_iff.mp hlen.symm).symm
  | cons x xs ih =>
      cases ys with
      | nil =>
          cases hlen
      | cons y ys =>
          simp only [List.zipWith_cons_cons, List.mem_cons, not_or] at h
          rw [ih (Nat.succ.inj hlen) h.2]
          cases x <;> cases y <;> simp_all

theorem mem_bitErrors_of_ne {f g : List UInt8}
    (hlen : f.length = g.length) (hne : f ≠ g) :
    true ∈ bitErrors f g := by
  by_contra hnone
  refine hne (lineBits_injective hlen ?_)
  exact eq_of_not_mem_zipWith_xor (by simp [hlen]) hnone

theorem neverOne_crcGenerator :
    neverOne crcGenerator 2080 (shiftStep crcGenerator 1#16) = true := by
  decide +kernel

/-- The register does not see where two checked frames differ. -/
theorem silent_of_checked {f g : List UInt8}
    (hf : Checked nmbsCrcCalc f) (hg : Checked nmbsCrcCalc g)
    (hlen : f.length = g.length) :
    Silent crcGenerator (bitErrors f g) := by
  exact silent_of_feedBits_eq_zero (by simp [hlen])
    (checked_iff_feedBits.mp hf).2 (checked_iff_feedBits.mp hg).2

/--
Two checked frames of one length that fit into the message buffer are equal or
differ in an even number of at least four bits, two of them sixteen apart.
-/
theorem checked_frames_distance
    {f g : List UInt8}
    (hf : Checked nmbsCrcCalc f)
    (hg : Checked nmbsCrcCalc g)
    (hlen : f.length = g.length)
    (hfit : f.length ≤ 260)
    (hne : f ≠ g) :
    4 ≤ (bitErrors f g).count true ∧
      (bitErrors f g).count true % 2 = 0 ∧
      ∃ i j, i + 16 ≤ j ∧
        (bitErrors f g)[i]? = some true ∧
        (bitErrors f g)[j]? = some true := by
  have hsilent := silent_of_checked hf hg hlen
  have hbits : (bitErrors f g).length ≤ 2080 := by
    rw [length_bitErrors hlen]
    omega
  exact distance_of_silent crcGenerator_msb (by omega) (by rfl)
    (iterate_one_ne_one_of_neverOne neverOne_crcGenerator) hbits hsilent
    (mem_bitErrors_of_ne hlen hne)

/-- The frames of two reads that differ in their quantity. -/
theorem checked_frames_distance_reads :
    let f := withCheck nmbsCrcCalc [1, 3, 0, 0, 0, 1]
    let g := withCheck nmbsCrcCalc [1, 3, 0, 0, 0, 2]
    4 ≤ (bitErrors f g).count true ∧
      (bitErrors f g).count true % 2 = 0 ∧
      ∃ i j, i + 16 ≤ j ∧
        (bitErrors f g)[i]? = some true ∧
        (bitErrors f g)[j]? = some true := by
  intro f g
  have hlen : ∀ quantity, (withCheck nmbsCrcCalc
      [1, 3, 0, 0, 0, quantity]).length = 8 := fun _ => rfl
  refine checked_frames_distance ⟨_, rfl⟩ ⟨_, rfl⟩
    ((hlen 1).trans (hlen 2).symm) (by rw [hlen]; omega) ?_
  intro h
  have hbody := (List.append_inj h rfl).1
  simp at hbody

end Distance

end Port
end ModbusRtu
