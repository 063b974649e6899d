import ModbusRtu.Port.RegisterMap

/-!
# What a refused register write leaves behind

The write handler checks each register in the same pass that writes it. A range
that starts in the map and ends behind it is refused at its first unmapped
register, after the mapped ones have been written. The client is told that the
request was invalid, and the counter and the LED have changed all the same.

So a refused write changes nothing only if it starts behind the map, or if the
mapped registers it starts with hold the written values already. A single
write has one pass and is always harmless when it is refused.
-/

namespace ModbusRtu
namespace Port

open Kernel

universe u

variable {γ : Type u}
variable {pin : OutputPin γ}

section RefusedState

@[simp] theorem writeRegister_zero (b : Board γ) (value : UInt16) :
    writeRegister pin b 0 value =
      some { b with loopCount := intOfUInt16 value } := by
  rfl

@[simp] theorem writeRegister_one (b : Board γ) (value : UInt16) :
    writeRegister pin b 1 value =
      some
        { b with
          gpio := pin.halGpioWritePin b.gpio (ledLevel value) } := by
  rw [← setLedPinState_intOfUInt16]
  rfl

/-- A range that starts behind the map is refused in its first pass. -/
theorem refused_behind_map
    {b : Board γ} {address quantity : UInt16}
    {registers : Nat → UInt16}
    (haddress : mappedRegisters ≤ address.toNat)
    (hquantity : 1 ≤ quantity.toNat) :
    serverWriteMultipleRegisters pin b address quantity registers =
      (.errorInvalidRequest, b) := by
  obtain ⟨n, hn⟩ := Nat.exists_eq_add_of_le' hquantity
  have hpass :
      writeRegister pin b (curReg address 0) (registers 0) = none := by
    rw [curReg_zero]
    exact writeRegister_eq_none_iff.mpr (Nat.not_lt.mpr haddress)
  rw [serverWriteMultipleRegisters, hn, refusingLoop_refused hpass]
  rfl

/-- A range that starts at the LED is refused after the LED is set. -/
theorem refused_at_led
    {b : Board γ} {quantity : UInt16} {registers : Nat → UInt16}
    (hquantity : 2 ≤ quantity.toNat) :
    serverWriteMultipleRegisters pin b 1 quantity registers =
      (.errorInvalidRequest,
        { b with
          gpio := pin.halGpioWritePin b.gpio
            (ledLevel (registers 0)) }) := by
  obtain ⟨n, hn⟩ := Nat.exists_eq_add_of_le' hquantity
  rw [serverWriteMultipleRegisters, hn,
    refusingLoop_passed (writeRegister_one b (registers 0)),
    refusingLoop_refused (writeRegister_eq_none_iff.mpr (by decide))]
  rfl

/-- A range that starts at the counter is refused after both writes. -/
theorem refused_at_counter
    {b : Board γ} {quantity : UInt16} {registers : Nat → UInt16}
    (hquantity : 3 ≤ quantity.toNat) :
    serverWriteMultipleRegisters pin b 0 quantity registers =
      (.errorInvalidRequest,
        { loopCount := intOfUInt16 (registers 0)
          gpio := pin.halGpioWritePin b.gpio
            (ledLevel (registers 1)) }) := by
  obtain ⟨n, hn⟩ := Nat.exists_eq_add_of_le' hquantity
  rw [serverWriteMultipleRegisters, hn,
    refusingLoop_passed (writeRegister_zero b (registers 0)),
    refusingLoop_passed (writeRegister_one _ (registers 1)),
    refusingLoop_refused (writeRegister_eq_none_iff.mpr (by decide))]
  rfl

end RefusedState

section Harmless

/-- Both boards have the same counter and the same LED level. -/
def SameOutputs (pin : OutputPin γ) (b b' : Board γ) : Prop :=
  b'.loopCount = b.loopCount ∧
    pin.halGpioReadPin b'.gpio = pin.halGpioReadPin b.gpio

/-- If the multiple write is refused, counter and LED are as before. -/
def RefusalChangesNothing (pin : OutputPin γ) (b : Board γ)
    (address quantity : UInt16) (registers : Nat → UInt16) : Prop :=
  (serverWriteMultipleRegisters pin b address quantity
      registers).1 ≠ .errorNone →
    SameOutputs pin b
      (serverWriteMultipleRegisters pin b address quantity registers).2

/-- The mapped registers the range starts with hold the values already. -/
def RepeatsOutputs (pin : OutputPin γ) (b : Board γ)
    (address : UInt16) (registers : Nat → UInt16) : Prop :=
  (address = 0 →
    b.loopCount = intOfUInt16 (registers 0) ∧
      pin.halGpioReadPin b.gpio = ledLevel (registers 1)) ∧
  (address = 1 →
    pin.halGpioReadPin b.gpio = ledLevel (registers 0))

/-- A single write that is refused has not been applied. -/
theorem sameOutputs_of_refused_single
    {b : Board γ} {address value : UInt16}
    (hrefused :
      (serverWriteSingleRegister pin b address value).1 ≠ .errorNone) :
    SameOutputs pin b
      (serverWriteSingleRegister pin b address value).2 := by
  rw [serverWriteSingleRegister_eq] at hrefused ⊢
  cases hwrite : writeRegister pin b address value with
  | none =>
      exact ⟨rfl, rfl⟩
  | some b' =>
      rw [hwrite] at hrefused
      exact absurd rfl hrefused

/--
A multiple write changes nothing when it is refused exactly when its range is
accepted or it repeats the outputs; a refused single write changes nothing.
-/
theorem refusal_changes_nothing_iff
    (pin : OutputPin γ) (b : Board γ)
    (address quantity : UInt16) (registers : Nat → UInt16)
    (hquantity : 1 ≤ quantity.toNat) :
    (RefusalChangesNothing pin b address quantity registers ↔
      address.toNat + quantity.toNat ≤ mappedRegisters ∨
        RepeatsOutputs pin b address registers) ∧
    ∀ value,
      (serverWriteSingleRegister pin b address value).1 ≠ .errorNone →
        SameOutputs pin b
          (serverWriteSingleRegister pin b address value).2 := by
  constructor
  · by_cases hrange : address.toNat + quantity.toNat ≤ mappedRegisters
    · have haccepted := (serverWriteMultipleRegisters_accepts_iff
        pin b address quantity registers hquantity).mpr hrange
      simp [RefusalChangesNothing, haccepted, hrange]
    · simp only [hrange, false_or]
      simp only [mappedRegisters] at hrange
      rcases Nat.lt_trichotomy address.toNat 1 with hcounter | hled | hbehind
      · have haddress : address = 0 :=
          UInt16.toNat_inj.mp (by simpa using hcounter)
        subst haddress
        have hquantity : 3 ≤ quantity.toNat := by
          simp at hrange
          omega
        rw [RefusalChangesNothing, refused_at_counter hquantity]
        simp [SameOutputs, RepeatsOutputs, pin.read_write, eq_comm]
      · have haddress : address = 1 := UInt16.toNat_inj.mp hled
        subst haddress
        have hquantity : 2 ≤ quantity.toNat := by
          simp at hrange
          omega
        rw [RefusalChangesNothing, refused_at_led hquantity]
        simp [SameOutputs, RepeatsOutputs, pin.read_write, eq_comm]
      · have hzero : address ≠ 0 := by
          rintro rfl
          simp at hbehind
        have hone : address ≠ 1 := by
          rintro rfl
          simp at hbehind
        rw [RefusalChangesNothing, refused_behind_map hbehind hquantity]
        simp [SameOutputs, RepeatsOutputs, hzero, hone]
  · intro value
    exact sameOutputs_of_refused_single

/-- A refused request for three registers that repeats a dark board. -/
theorem refusal_changes_nothing_dark :
    RefusalChangesNothing OutputPin.level
      { darkBoard with loopCount := 5 } 0 3
      (fun i => if i = 0 then 5 else 0) := by
  have hiff := refusal_changes_nothing_iff OutputPin.level
    { darkBoard with loopCount := 5 } 0 3
    (fun i => if i = 0 then 5 else 0) (by decide)
  refine hiff.1.mpr (Or.inr ⟨fun _ => ⟨rfl, rfl⟩, ?_⟩)
  intro hone
  cases hone

/--
Three registers from 0 on, all with the value 1: the request is refused, and
the counter is 1 and the LED on.
-/
theorem refused_write_applied :
    (serverWriteMultipleRegisters OutputPin.level darkBoard 0 3
        (fun _ => 1)).1 = .errorInvalidRequest ∧
      ¬ RefusalChangesNothing OutputPin.level darkBoard 0 3
        (fun _ => 1) := by
  have hstate :=
    @refused_at_counter _ OutputPin.level darkBoard 3 (fun _ => 1)
      (by decide)
  refine ⟨by rw [hstate], ?_⟩
  intro hnothing
  rw [RefusalChangesNothing, hstate] at hnothing
  cases (hnothing (by simp)).2

end Harmless

end Port
end ModbusRtu
