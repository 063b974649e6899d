import Mathlib.Logic.Function.Basic
import ModbusRtu.Kernel.RefusingLoop
import ModbusRtu.Port.PortHeader

/-!
# The register handlers of the server

The holding register callbacks of port.c and the LED functions of main.c. The
state they share is loop_count and the GPIO hardware.

The HAL is not part of the repository. It enters as an output pin: a type of
hardware states with a write and a read, such that reading gives the level
last written. The handlers are parameters of such a pin.

Both handlers go through the addressed range register by register and leave
from inside the loop at the first register that their switch does not know.
The index of a register is computed in 16 bits and may wrap around. The
register arguments are the memory the pointers refer to. The unit identifier,
the callback argument and the debug output are left out.
-/

namespace ModbusRtu
namespace Port

open Kernel

universe u

section Board

/-- GPIO_PinState -/
inductive GpioPinState
  | gpioPinReset
  | gpioPinSet
deriving DecidableEq

/-- A GPIO output pin as the HAL gives access to it. -/
structure OutputPin (γ : Type u) where
  /-- HAL_GPIO_WritePin -/
  halGpioWritePin : γ → GpioPinState → γ
  /-- HAL_GPIO_ReadPin -/
  halGpioReadPin : γ → GpioPinState
  /-- Reading an output pin gives the level last written. -/
  read_write : ∀ g level,
    halGpioReadPin (halGpioWritePin g level) = level

/-- The pin whose hardware state is its level. -/
def OutputPin.level : OutputPin GpioPinState where
  halGpioWritePin := fun _ level => level
  halGpioReadPin := fun g => g
  read_write := fun _ _ => rfl

/-- loop_count and the GPIO hardware. -/
structure Board (γ : Type u) where
  loopCount : Int32
  gpio : γ

end Board

section Led

variable {γ : Type u}
variable (pin : OutputPin γ)

/-- set_led_pin_state -/
def setLedPinState (b : Board γ) (pinState : Int32) : Board γ :=
  if pinState ≠ 0 then
    { b with gpio := pin.halGpioWritePin b.gpio .gpioPinSet }
  else
    { b with gpio := pin.halGpioWritePin b.gpio .gpioPinReset }

/-- get_led_pin_state -/
def getLedPinState (b : Board γ) : Int32 :=
  if pin.halGpioReadPin b.gpio = .gpioPinSet then 1 else 0

/-- The level that set_led_pin_state drives for a register value. -/
def ledLevel (value : UInt16) : GpioPinState :=
  if value = 0 then .gpioPinReset else .gpioPinSet

end Led

section Conversions

/-- A uint16_t as an int. -/
def intOfUInt16 (value : UInt16) : Int32 :=
  value.toUInt32.toInt32

/-- An int stored in a uint16_t. -/
def uint16OfInt (value : Int32) : UInt16 :=
  value.toUInt32.toUInt16

@[simp] theorem uint16OfInt_intOfUInt16 (value : UInt16) :
    uint16OfInt (intOfUInt16 value) = value := by
  simp [uint16OfInt, intOfUInt16]

theorem intOfUInt16_eq_zero_iff (value : UInt16) :
    intOfUInt16 value = 0 ↔ value = 0 := by
  constructor
  · intro hzero
    rw [← uint16OfInt_intOfUInt16 value, hzero]
    rfl
  · rintro rfl
    rfl

end Conversions

section Handlers

variable {γ : Type u}
variable (pin : OutputPin γ)

/-- uint16_t cur_reg = address + i -/
def curReg (address : UInt16) (i : Nat) : UInt16 :=
  UInt16.ofNat (address.toNat + i)

/-- What a handler returns when its loop has ended. -/
def loopReply {σ : Type u} (loop : Bool × σ) : NmbsError × σ :=
  (if loop.1 then .errorNone else .errorInvalidRequest, loop.2)

/-- The switch of server_read_holding_registers; none is its default. -/
def readRegister (b : Board γ) (reg : UInt16) : Option UInt16 :=
  if reg = 0 then
    some (uint16OfInt b.loopCount)
  else if reg = 1 then
    some (uint16OfInt (getLedPinState pin b))
  else
    none

/-- server_read_holding_registers -/
def serverReadHoldingRegisters
    (b : Board γ) (address quantity : UInt16)
    (registersOut : Nat → UInt16) :
    NmbsError × (Nat → UInt16) :=
  loopReply
    (refusingLoop
      (fun out i =>
        (readRegister pin b (curReg address i)).map
          (Function.update out i))
      0 quantity.toNat registersOut)

/-- The switch of server_write_multiple_registers; none is its default. -/
def writeRegister (b : Board γ) (reg value : UInt16) :
    Option (Board γ) :=
  if reg = 0 then
    some { b with loopCount := intOfUInt16 value }
  else if reg = 1 then
    some (setLedPinState pin b (intOfUInt16 value))
  else
    none

/-- server_write_multiple_registers -/
def serverWriteMultipleRegisters
    (b : Board γ) (address quantity : UInt16)
    (registers : Nat → UInt16) :
    NmbsError × Board γ :=
  loopReply
    (refusingLoop
      (fun b i => writeRegister pin b (curReg address i) (registers i))
      0 quantity.toNat b)

/-- server_write_single_register -/
def serverWriteSingleRegister
    (b : Board γ) (address value : UInt16) : NmbsError × Board γ :=
  serverWriteMultipleRegisters pin b address 1 (fun _ => value)

end Handlers

section SwitchLemmas

variable {γ : Type u}
variable {pin : OutputPin γ}

theorem toNat_curReg (address : UInt16) (i : Nat) :
    (curReg address i).toNat = (address.toNat + i) % 65536 := by
  rw [curReg, UInt16.toNat_ofNat']

@[simp] theorem curReg_zero (address : UInt16) :
    curReg address 0 = address := by
  rw [curReg, Nat.add_zero, UInt16.ofNat_toNat]

theorem loopReply_errorNone_iff {σ : Type u} {loop : Bool × σ} :
    (loopReply loop).1 = .errorNone ↔ loop.1 = true := by
  cases hdone : loop.1 <;> simp [loopReply, hdone]

/-- Setting the LED drives the level of the value and nothing else. -/
theorem setLedPinState_intOfUInt16 (b : Board γ) (value : UInt16) :
    setLedPinState pin b (intOfUInt16 value) =
      { b with gpio := pin.halGpioWritePin b.gpio (ledLevel value) } := by
  simp only [setLedPinState, ledLevel, ne_eq, intOfUInt16_eq_zero_iff,
    ite_not]
  split <;> rfl

theorem toNat_lt_two_iff {reg : UInt16} :
    reg.toNat < 2 ↔ reg = 0 ∨ reg = 1 := by
  rw [← UInt16.toNat_inj, ← UInt16.toNat_inj]
  simp only [UInt16.toNat_zero, UInt16.toNat_one]
  omega

/-- The two switches know the same registers: those below 2. -/
theorem readRegister_eq_none_iff {b : Board γ} {reg : UInt16} :
    readRegister pin b reg = none ↔ ¬ reg.toNat < 2 := by
  rw [toNat_lt_two_iff, not_or]
  by_cases hzero : reg = 0
  · simp [readRegister, hzero]
  · by_cases hone : reg = 1
    · simp [readRegister, hone]
    · simp [readRegister, hzero, hone]

theorem writeRegister_eq_none_iff
    {b : Board γ} {reg value : UInt16} :
    writeRegister pin b reg value = none ↔ ¬ reg.toNat < 2 := by
  rw [toNat_lt_two_iff, not_or]
  by_cases hzero : reg = 0
  · simp [writeRegister, hzero]
  · by_cases hone : reg = 1
    · simp [writeRegister, hone]
    · simp [writeRegister, hzero, hone]

/-- The single write runs the loop once. -/
theorem serverWriteSingleRegister_eq
    (b : Board γ) (address value : UInt16) :
    serverWriteSingleRegister pin b address value =
      match writeRegister pin b address value with
      | none => (.errorInvalidRequest, b)
      | some b' => (.errorNone, b') := by
  simp only [serverWriteSingleRegister, serverWriteMultipleRegisters,
    UInt16.toNat_one, refusingLoop, curReg_zero]
  cases writeRegister pin b address value <;> rfl

end SwitchLemmas

end Port
end ModbusRtu
