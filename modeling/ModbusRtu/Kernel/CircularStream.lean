import Mathlib.Logic.Function.Basic
import Mathlib.Tactic.Common

/-!
# A stream written into a ring

A writer stores the elements of a stream one by one at their positions modulo
a capacity. The ring then holds the last elements of the stream, as many as
the capacity.

Positions are only known modulo the capacity. Two different positions that are
less than a capacity apart stay different modulo the capacity, so a write does
not disturb the elements still held, and a reader may compare wrapped indices.
-/

namespace ModbusRtu
namespace Kernel

universe u

section CircularStream

variable {α : Type u}
variable {cap : Nat} {stream ring : Nat → α}

/-- The ring holds the last cap elements of the first w of the stream. -/
def RingHolds (cap : Nat) (stream ring : Nat → α) (w : Nat) : Prop :=
  ∀ k, k < w → w ≤ k + cap → ring (k % cap) = stream k

/-- Store element w of the stream at its position modulo the capacity. -/
def ringWrite
    (cap : Nat) (stream ring : Nat → α) (w : Nat) : Nat → α :=
  Function.update ring (w % cap) (stream w)

theorem ringHolds_zero :
    RingHolds cap stream ring 0 := by
  intro k hk
  omega

/-- Positions less than a capacity apart differ modulo the capacity. -/
theorem mod_ne_mod_of_lt
    {r w : Nat}
    (hlt : r < w)
    (hnear : w < r + cap) :
    r % cap ≠ w % cap := by
  intro heq
  have hdvd : cap ∣ w - r :=
    Nat.dvd_of_mod_eq_zero (Nat.sub_mod_eq_zero_of_mod_eq heq.symm)
  have hle := Nat.le_of_dvd (by omega) hdvd
  omega

/-- One more write keeps the ring filled with the last elements. -/
theorem ringHolds_write
    {w : Nat}
    (hholds : RingHolds cap stream ring w) :
    RingHolds cap stream (ringWrite cap stream ring w) (w + 1) := by
  intro k hk hnear
  simp only [ringWrite]
  rcases Nat.lt_or_ge k w with hold | hnew
  · rw [Function.update_of_ne (mod_ne_mod_of_lt hold (by omega))]
    exact hholds k hold (by omega)
  · have hlast : k = w := by
      omega
    rw [hlast, Function.update_self]

/-- A wrapped position that stays below the capacity is counted up. -/
theorem succ_mod_of_lt
    {r : Nat} (hlt : r % cap + 1 < cap) :
    (r + 1) % cap = r % cap + 1 := by
  rw [Nat.add_mod, Nat.mod_eq_of_lt (a := 1) (by omega),
    Nat.mod_eq_of_lt hlt]

/-- A wrapped position that reaches the capacity starts again at zero. -/
theorem succ_mod_of_ge
    {r : Nat} (hcap : 0 < cap) (hge : cap ≤ r % cap + 1) :
    (r + 1) % cap = 0 := by
  have hmod := Nat.mod_lt r hcap
  have hlast : r % cap + 1 = cap := by
    omega
  rw [← Nat.mod_add_mod, hlast, Nat.mod_self]

end CircularStream

end Kernel
end ModbusRtu
