import ModbusRtu.Port.RegisterModel

/-!
# Reads and writes as accesses to one register map

What a client sees of the board is a map from register numbers to values. It
has two registers: the loop counter, and the LED, which keeps of a value only
whether it is zero.

The handlers are compared with this map. A write that is acknowledged
overwrites the addressed registers of the map, whether it is sent as one
request or register by register, and a read that is accepted returns the
addressed part of it. Both are accepted for the ranges that lie in the map, a
range that wraps around in 16 bits not being one of them.
-/

namespace ModbusRtu
namespace Port

open Kernel

universe u v

variable {γ : Type u}
variable {pin : OutputPin γ}

section AbstractMap

/-- Number of registers of the map. -/
def mappedRegisters : Nat := 2

/-- The value of register k as a client sees it. -/
def registerValue (pin : OutputPin γ) (b : Board γ) (k : Nat) : UInt16 :=
  if k = 0 then
    uint16OfInt b.loopCount
  else if k = 1 then
    uint16OfInt (getLedPinState pin b)
  else
    0

/-- What register k keeps of a value written to it. -/
def keptValue (k : Nat) (value : UInt16) : UInt16 :=
  if k = 0 then value else if value = 0 then 0 else 1

/-- The map after the n registers from a on have been written. -/
def overwrite (map : Nat → UInt16) (a n : Nat)
    (values : Nat → UInt16) (k : Nat) : UInt16 :=
  if a ≤ k ∧ k < a + n then keptValue k (values (k - a)) else map k

@[simp] theorem overwrite_zero
    (map : Nat → UInt16) (a : Nat) (values : Nat → UInt16) :
    overwrite map a 0 values = map := by
  funext k
  simp only [overwrite]
  rw [if_neg (by omega)]

/-- One register more is one more update of the map. -/
theorem overwrite_succ
    (map : Nat → UInt16) (a n : Nat) (values : Nat → UInt16) :
    overwrite map a (n + 1) values =
      Function.update (overwrite map a n values) (a + n)
        (keptValue (a + n) (values n)) := by
  funext k
  rcases Nat.lt_trichotomy k (a + n) with hlt | rfl | hgt
  · rw [Function.update_of_ne (by omega)]
    simp only [overwrite]
    by_cases hle : a ≤ k
    · rw [if_pos ⟨hle, by omega⟩, if_pos ⟨hle, hlt⟩]
    · rw [if_neg (by omega), if_neg (by omega)]
  · rw [Function.update_self, overwrite, if_pos (by omega),
      Nat.add_sub_cancel_left]
  · rw [Function.update_of_ne (by omega)]
    simp only [overwrite]
    rw [if_neg (by omega), if_neg (by omega)]

end AbstractMap

section OneRegister

/-- The LED register reads one when the pin is set and zero otherwise. -/
theorem uint16OfInt_getLedPinState (b : Board γ) :
    uint16OfInt (getLedPinState pin b) =
      if pin.halGpioReadPin b.gpio = .gpioPinSet then 1 else 0 := by
  simp only [getLedPinState]
  split <;> rfl

/-- A mapped register is read as the client sees it. -/
theorem readRegister_of_mapped
    {b : Board γ} {reg : UInt16}
    (hmapped : reg.toNat < mappedRegisters) :
    readRegister pin b reg = some (registerValue pin b reg.toNat) := by
  rcases toNat_lt_two_iff.mp hmapped with rfl | rfl
  · rfl
  · rfl

/-- An accepted write to one register updates that register of the map. -/
theorem registerValue_writeRegister
    {b b' : Board γ} {reg value : UInt16}
    (hwrite : writeRegister pin b reg value = some b') :
    registerValue pin b' =
      Function.update (registerValue pin b) reg.toNat
        (keptValue reg.toNat value) := by
  funext k
  simp only [writeRegister] at hwrite
  split at hwrite
  · rename_i hreg
    have hb := Option.some.inj hwrite
    subst hb hreg
    rcases Nat.eq_zero_or_pos k with rfl | hk
    · simp [registerValue, keptValue]
    · have hne : k ≠ 0 := by
        omega
      rw [Function.update_of_ne (by simpa using hne)]
      simp [registerValue, getLedPinState, hne]
  · split at hwrite
    · rename_i hreg
      have hb := Option.some.inj hwrite
      rw [setLedPinState_intOfUInt16] at hb
      subst hb hreg
      by_cases hk : k = 1
      · subst hk
        simp only [registerValue, keptValue, uint16OfInt_getLedPinState,
          pin.read_write, ledLevel, UInt16.toNat_one,
          Function.update_self]
        by_cases hv : value = 0 <;> simp [hv]
      · rw [Function.update_of_ne (by simpa using hk)]
        simp [registerValue, hk]
    · cases hwrite

end OneRegister

section Ranges

/-- In the map the register index does not wrap. -/
theorem toNat_curReg_of_le
    {address : UInt16} {i : Nat}
    (hle : address.toNat + i < mappedRegisters) :
    (curReg address i).toNat = address.toNat + i := by
  simp only [mappedRegisters] at hle
  rw [toNat_curReg]
  omega

/--
All registers of a range are mapped exactly when the range ends inside the
map; a range that wraps around has an unmapped register before it does.
-/
theorem curReg_mapped_iff
    {address : UInt16} {n : Nat} (hn : 1 ≤ n) :
    (∀ i, 0 ≤ i → i < 0 + n →
        (curReg address i).toNat < mappedRegisters) ↔
      address.toNat + n ≤ mappedRegisters := by
  have haddress := address.toNat_lt
  simp only [mappedRegisters, toNat_curReg]
  constructor
  · intro hall
    by_contra hlong
    have hfirst := hall 0 (Nat.le_refl 0) (by omega)
    have hend := hall (2 - address.toNat) (Nat.zero_le _) (by omega)
    omega
  · intro hle i _ hi
    omega

/-- A loop that refuses the unmapped registers accepts the mapped ranges. -/
theorem mappedLoop_accepts_iff
    {σ : Type v} {body : σ → Nat → Option σ}
    {address quantity : UInt16}
    (hbody : ∀ s i, body s i = none ↔
      ¬ (curReg address i).toNat < mappedRegisters)
    (hquantity : 1 ≤ quantity.toNat) (s : σ) :
    (loopReply (refusingLoop body 0 quantity.toNat s)).1 = .errorNone ↔
      address.toNat + quantity.toNat ≤ mappedRegisters := by
  rw [loopReply_errorNone_iff,
    refusingLoop_completes_iff
      (P := fun i => (curReg address i).toNat < mappedRegisters) hbody,
    curReg_mapped_iff hquantity]

theorem serverReadHoldingRegisters_accepts_iff
    (pin : OutputPin γ) (b : Board γ) (address quantity : UInt16)
    (registersOut : Nat → UInt16)
    (hquantity : 1 ≤ quantity.toNat) :
    (serverReadHoldingRegisters pin b address quantity
        registersOut).1 = .errorNone ↔
      address.toNat + quantity.toNat ≤ mappedRegisters := by
  refine mappedLoop_accepts_iff ?_ hquantity registersOut
  intro out i
  rw [Option.map_eq_none_iff]
  exact readRegister_eq_none_iff

theorem serverWriteMultipleRegisters_accepts_iff
    (pin : OutputPin γ) (b : Board γ) (address quantity : UInt16)
    (registers : Nat → UInt16)
    (hquantity : 1 ≤ quantity.toNat) :
    (serverWriteMultipleRegisters pin b address quantity
        registers).1 = .errorNone ↔
      address.toNat + quantity.toNat ≤ mappedRegisters := by
  refine mappedLoop_accepts_iff ?_ hquantity b
  intro b i
  exact writeRegister_eq_none_iff

end Ranges

section Accesses

/-- An accepted read returns the addressed part of the map. -/
theorem serverReadHoldingRegisters_value
    {b : Board γ} {address quantity : UInt16}
    {registersOut : Nat → UInt16}
    (haccepted : (serverReadHoldingRegisters pin b address quantity
      registersOut).1 = .errorNone)
    {i : Nat} (hi : i < quantity.toNat) :
    (serverReadHoldingRegisters pin b address quantity
        registersOut).2 i =
      registerValue pin b (address.toNat + i) := by
  have hrange := (serverReadHoldingRegisters_accepts_iff pin b address
    quantity registersOut (by omega)).mp haccepted
  have hdone := loopReply_errorNone_iff.mp haccepted
  have hall := refusingLoop_invariant
    (I := fun n out => ∀ k, k < n →
      out k = registerValue pin b (address.toNat + k))
    (i := 0) ?_ ?_ hdone
  · rw [Nat.zero_add] at hall
    exact hall i hi
  · intro j out out' _ hj hbefore hpass k hk
    have hreg : (curReg address j).toNat = address.toNat + j :=
      toNat_curReg_of_le (by omega)
    rw [readRegister_of_mapped (by omega), hreg] at hpass
    have hout := Option.some.inj hpass
    subst hout
    rcases Nat.lt_succ_iff_lt_or_eq.mp hk with hearlier | rfl
    · rw [Function.update_of_ne (by omega)]
      exact hbefore k hearlier
    · exact Function.update_self _ _ _
  · intro k hk
    omega

/-- An acknowledged write overwrites the addressed part of the map. -/
theorem registerValue_serverWriteMultipleRegisters
    {b : Board γ} {address quantity : UInt16}
    {registers : Nat → UInt16}
    (haccepted : (serverWriteMultipleRegisters pin b address quantity
      registers).1 = .errorNone) :
    registerValue pin
        (serverWriteMultipleRegisters pin b address quantity
          registers).2 =
      overwrite (registerValue pin b) address.toNat quantity.toNat
        registers := by
  have hdone := loopReply_errorNone_iff.mp haccepted
  have hall := refusingLoop_invariant
    (I := fun n t => registerValue pin t =
      overwrite (registerValue pin b) address.toNat n registers)
    (i := 0) ?_ ?_ hdone
  · rw [Nat.zero_add] at hall
    exact hall
  · intro j t t' _ hj hbefore hpass
    have hrange := (serverWriteMultipleRegisters_accepts_iff pin b address
      quantity registers (by omega)).mp haccepted
    have hreg : (curReg address j).toNat = address.toNat + j :=
      toNat_curReg_of_le (by omega)
    rw [registerValue_writeRegister hpass, hbefore, hreg,
      overwrite_succ]
  · exact (overwrite_zero _ _ _).symm

end Accesses

section SingleWrites

/-- The requests that write a range register by register. -/
def singleWrites (address quantity : UInt16)
    (registers : Nat → UInt16) : List (UInt16 × UInt16) :=
  (List.range' 0 quantity.toNat).map
    (fun i => (curReg address i, registers i))

/-- One request of server_write_single_register: address and value. -/
def singleWriteStep (pin : OutputPin γ)
    (b : Board γ) (request : UInt16 × UInt16) : NmbsError × Board γ :=
  serverWriteSingleRegister pin b request.1 request.2

/--
The single writes of a range are all acknowledged exactly when the multiple
write is, and then lead to the same state.
-/
theorem singleWrites_run
    (pin : OutputPin γ) (b : Board γ) (address quantity : UInt16)
    (registers : Nat → UInt16) :
    ((∀ reply ∈ runReplies (singleWriteStep pin) b
          (singleWrites address quantity registers),
        reply = .errorNone) ↔
      (serverWriteMultipleRegisters pin b address quantity
        registers).1 = .errorNone) ∧
    ((serverWriteMultipleRegisters pin b address quantity
        registers).1 = .errorNone →
      runState (singleWriteStep pin) b
          (singleWrites address quantity registers) =
        (serverWriteMultipleRegisters pin b address quantity
          registers).2) := by
  rw [serverWriteMultipleRegisters, loopReply_errorNone_iff]
  apply refusingLoop_as_run (P := fun reply => reply = NmbsError.errorNone)
  · intro t i hpass
    simp [singleWriteStep, serverWriteSingleRegister_eq, hpass]
  · intro t t' i hpass
    simp [singleWriteStep, serverWriteSingleRegister_eq, hpass]

end SingleWrites

section OneMap

/--
Reads, multiple writes and sequences of single writes accept the same ranges,
those inside the map. After an acknowledged write, which leaves the same state
either way, every accepted read returns the values written, as the register
keeps them, inside the written range and what it returned before outside it.
-/
theorem handlers_share_register_map
    (pin : OutputPin γ) (b : Board γ)
    (address quantity : UInt16)
    (registers registersOut : Nat → UInt16)
    (hquantity : 1 ≤ quantity.toNat) :
    ((serverReadHoldingRegisters pin b address quantity
        registersOut).1 = .errorNone ↔
      address.toNat + quantity.toNat ≤ mappedRegisters) ∧
    ((serverWriteMultipleRegisters pin b address quantity
        registers).1 = .errorNone ↔
      address.toNat + quantity.toNat ≤ mappedRegisters) ∧
    ((∀ reply ∈ runReplies (singleWriteStep pin) b
          (singleWrites address quantity registers),
        reply = .errorNone) ↔
      address.toNat + quantity.toNat ≤ mappedRegisters) ∧
    ((serverWriteMultipleRegisters pin b address quantity
        registers).1 = .errorNone →
      runState (singleWriteStep pin) b
          (singleWrites address quantity registers) =
        (serverWriteMultipleRegisters pin b address quantity
          registers).2 ∧
      ∀ (first length : UInt16) (out : Nat → UInt16),
        (serverReadHoldingRegisters pin
          (serverWriteMultipleRegisters pin b address quantity
            registers).2
          first length out).1 = .errorNone →
        ∀ i, i < length.toNat →
          (serverReadHoldingRegisters pin
            (serverWriteMultipleRegisters pin b address quantity
              registers).2
            first length out).2 i =
          if address.toNat ≤ first.toNat + i ∧
              first.toNat + i < address.toNat + quantity.toNat then
            keptValue (first.toNat + i)
              (registers (first.toNat + i - address.toNat))
          else
            (serverReadHoldingRegisters pin b first length out).2 i) := by
  have hwrite := serverWriteMultipleRegisters_accepts_iff pin
    b address quantity registers hquantity
  obtain ⟨hsame, hstate⟩ :=
    singleWrites_run pin b address quantity registers
  refine ⟨serverReadHoldingRegisters_accepts_iff pin b address quantity
    registersOut hquantity, hwrite, hsame.trans hwrite, ?_⟩
  intro haccepted
  refine ⟨hstate haccepted, ?_⟩
  intro first length out hread i hi
  have hlength : 1 ≤ length.toNat := by
    omega
  have hrange := (serverReadHoldingRegisters_accepts_iff pin _ first length
    out hlength).mp hread
  have hbefore := (serverReadHoldingRegisters_accepts_iff pin b
    first length out hlength).mpr hrange
  rw [serverReadHoldingRegisters_value hread hi,
    serverReadHoldingRegisters_value hbefore hi,
    registerValue_serverWriteMultipleRegisters haccepted]
  rfl

/-- A board with a negative counter and the LED off. -/
def darkBoard : Board GpioPinState where
  loopCount := -1
  gpio := .gpioPinReset

/-- The values 4464 and 7 written to both registers read back as 4464 and 1. -/
theorem handlers_share_register_map_both :
    let values := fun i => if i = 0 then 4464 else 7
    let written :=
      (serverWriteMultipleRegisters OutputPin.level darkBoard 0 2
        values).2
    let read :=
      serverReadHoldingRegisters OutputPin.level written 0 2 (fun _ => 0)
    read.1 = .errorNone ∧ read.2 0 = 4464 ∧ read.2 1 = 1 := by
  intro values written read
  obtain ⟨_, hwrite, _, hafter⟩ := handlers_share_register_map
    OutputPin.level darkBoard 0 2 values (fun _ => 0) (by decide)
  have hread : read.1 = .errorNone := by
    rfl
  obtain ⟨_, hvalues⟩ := hafter (hwrite.mpr (by decide))
  exact ⟨hread, hvalues 0 2 _ hread 0 (by decide),
    hvalues 0 2 _ hread 1 (by decide)⟩

end OneMap

end Port
end ModbusRtu
