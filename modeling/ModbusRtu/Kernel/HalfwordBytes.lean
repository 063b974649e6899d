import Mathlib.Data.List.Basic
import Mathlib.Tactic.Common

/-!
# Bytes of halfwords and of 32-bit words

A 16-bit register travels on the wire as its high byte followed by its low
byte. This module fixes the two byte selections, the register decoding of a
byte string, and the little-endian byte form of a 32-bit word, and proves the
round trips between them.

A byte string of odd length has a last byte that belongs to no full register.
The decoding wireHalfwords drops it; every round trip therefore asks for an
even length.
-/

namespace ModbusRtu
namespace Kernel

section HalfwordBytes

/-- High byte of a halfword. -/
def hiByte (x : UInt16) : UInt8 :=
  (x >>> 8).toUInt8

/-- Low byte of a halfword. -/
def loByte (x : UInt16) : UInt8 :=
  x.toUInt8

/-- Halfword with the given high and low byte. -/
def halfword (hi lo : UInt8) : UInt16 :=
  (hi.toUInt16 <<< 8) ||| lo.toUInt16

theorem hiByte_toNat (x : UInt16) :
    (hiByte x).toNat = x.toNat / 256 := by
  have hx := x.toNat_lt
  simp only [hiByte, UInt16.toNat_toUInt8, UInt16.toNat_shiftRight]
  have h8 : UInt16.toNat 8 % 16 = 8 := by
    rfl
  rw [h8, Nat.shiftRight_eq_div_pow]
  omega

theorem loByte_toNat (x : UInt16) :
    (loByte x).toNat = x.toNat % 256 := by
  simp [loByte]

theorem halfword_toNat (hi lo : UInt8) :
    (halfword hi lo).toNat = hi.toNat * 256 + lo.toNat := by
  have hhi := hi.toNat_lt
  have hlo := lo.toNat_lt
  simp only [halfword, UInt16.toNat_or, UInt16.toNat_shiftLeft,
    UInt8.toNat_toUInt16]
  have h8 : UInt16.toNat 8 % 16 = 8 := by
    rfl
  rw [h8, Nat.mod_eq_of_lt (by rw [Nat.shiftLeft_eq]; omega),
    ← Nat.shiftLeft_add_eq_or_of_lt (by omega), Nat.shiftLeft_eq]

@[simp] theorem hiByte_halfword (hi lo : UInt8) :
    hiByte (halfword hi lo) = hi := by
  have hlo := lo.toNat_lt
  refine UInt8.toNat_inj.mp ?_
  rw [hiByte_toNat, halfword_toNat]
  omega

@[simp] theorem loByte_halfword (hi lo : UInt8) :
    loByte (halfword hi lo) = lo := by
  have hlo := lo.toNat_lt
  refine UInt8.toNat_inj.mp ?_
  rw [loByte_toNat, halfword_toNat]
  omega

/-- The two wire bytes of a register. -/
def wireBytes (x : UInt16) : List UInt8 :=
  [hiByte x, loByte x]

/-- Wire bytes of a sequence of registers. -/
def wireString (xs : List UInt16) : List UInt8 :=
  xs.flatMap wireBytes

/-- Registers decoded from a byte string; a last odd byte is dropped. -/
def wireHalfwords : List UInt8 → List UInt16
  | hi :: lo :: rest => halfword hi lo :: wireHalfwords rest
  | [_] => []
  | [] => []

@[simp] theorem wireString_nil :
    wireString [] = [] := by
  rfl

@[simp] theorem wireString_cons (x : UInt16) (xs : List UInt16) :
    wireString (x :: xs) =
      hiByte x :: loByte x :: wireString xs := by
  rfl

theorem wireString_append (xs ys : List UInt16) :
    wireString (xs ++ ys) = wireString xs ++ wireString ys := by
  simp [wireString]

@[simp] theorem length_wireString (xs : List UInt16) :
    (wireString xs).length = 2 * xs.length := by
  induction xs with
  | nil =>
      rfl
  | cons x xs ih =>
      simp only [wireString_cons, List.length_cons, ih]
      omega

@[simp] theorem length_wireHalfwords :
    ∀ bs : List UInt8, (wireHalfwords bs).length = bs.length / 2
  | [] => by
      rfl
  | [_] => by
      simp [wireHalfwords]
  | hi :: lo :: rest => by
      simp only [wireHalfwords, List.length_cons,
        length_wireHalfwords rest]
      omega

/-- Decoding and sending an even byte string gives it back. -/
theorem wireString_wireHalfwords :
    ∀ bs : List UInt8, bs.length % 2 = 0 →
      wireString (wireHalfwords bs) = bs
  | [], _ => by
      rfl
  | [_], h => by
      simp at h
  | hi :: lo :: rest, h => by
      have hrest : rest.length % 2 = 0 := by
        simp only [List.length_cons] at h
        omega
      simp [wireHalfwords, wireString_wireHalfwords rest hrest]

/-- 32-bit word stored as the four bytes, least significant byte first. -/
def leWord (b₀ b₁ b₂ b₃ : UInt8) : UInt32 :=
  b₀.toUInt32 ||| (b₁.toUInt32 <<< 8) ||| (b₂.toUInt32 <<< 16) |||
    (b₃.toUInt32 <<< 24)

theorem leWord_toNat (b₀ b₁ b₂ b₃ : UInt8) :
    (leWord b₀ b₁ b₂ b₃).toNat =
      b₀.toNat + 256 * b₁.toNat + 65536 * b₂.toNat +
        16777216 * b₃.toNat := by
  have h₀ := b₀.toNat_lt
  have h₁ := b₁.toNat_lt
  have h₂ := b₂.toNat_lt
  have h₃ := b₃.toNat_lt
  have e8 : UInt32.toNat 8 % 32 = 8 := by rfl
  have e16 : UInt32.toNat 16 % 32 = 16 := by rfl
  have e24 : UInt32.toNat 24 % 32 = 24 := by rfl
  simp only [leWord, UInt32.toNat_or, UInt32.toNat_shiftLeft,
    UInt8.toNat_toUInt32, e8, e16, e24, Nat.shiftLeft_eq]
  rw [Nat.mod_eq_of_lt (by omega), Nat.mod_eq_of_lt (by omega),
    Nat.mod_eq_of_lt (by omega)]
  have o₁ : b₀.toNat ||| b₁.toNat * 2 ^ 8 = b₁.toNat * 2 ^ 8 + b₀.toNat := by
    rw [Nat.or_comm, ← Nat.shiftLeft_eq,
      ← Nat.shiftLeft_add_eq_or_of_lt (by omega)]
  rw [o₁, Nat.or_comm _ (b₂.toNat * 2 ^ 16), ← Nat.shiftLeft_eq b₂.toNat,
    ← Nat.shiftLeft_add_eq_or_of_lt (by omega),
    Nat.or_comm _ (b₃.toNat * 2 ^ 24), ← Nat.shiftLeft_eq b₃.toNat,
    ← Nat.shiftLeft_add_eq_or_of_lt
      (by rw [Nat.shiftLeft_eq]; omega)]
  simp only [Nat.shiftLeft_eq]
  omega

/-- The four bytes of a number below 2^32, least significant byte first. -/
def leBytes (n : Nat) : List UInt8 :=
  [UInt8.ofNat n, UInt8.ofNat (n / 256), UInt8.ofNat (n / 65536),
    UInt8.ofNat (n / 16777216)]

@[simp] theorem length_leBytes (n : Nat) :
    (leBytes n).length = 4 := by
  rfl

/-- Reading back the four bytes of a number below 2^32. -/
theorem leWord_leBytes_toNat (n : Nat) (hn : n < 4294967296) :
    (leWord (UInt8.ofNat n) (UInt8.ofNat (n / 256))
      (UInt8.ofNat (n / 65536)) (UInt8.ofNat (n / 16777216))).toNat = n := by
  rw [leWord_toNat]
  simp only [UInt8.toNat_ofNat']
  omega

end HalfwordBytes

end Kernel
end ModbusRtu
