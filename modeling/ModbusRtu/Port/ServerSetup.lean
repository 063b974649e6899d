import ModbusRtu.Port.NmbsServerModel
import ModbusRtu.Port.RegisterModel
import ModbusRtu.Port.SessionLedger

/-!
# The server as port.c sets it up

The device behind the callbacks of port.c is the board with the file receiver.
The functions that create an instance of nanomodbus fill a structure nmbs_t from
a platform configuration and the callbacks, check both, and set the timeouts.

Function pointers of the platform configuration are present or NULL. The
transport is the number of the enumeration, so that it can be unset. The
pointers to the instance and to the platform configuration are not NULL, and the
user arguments are left out.

Whatever an instance holds, its initialization by port.c leaves the same
instance behind, and is refused for the unit address 0 only. What main makes of
the memory after reset is one state, from which all polls start.
-/

namespace ModbusRtu
namespace Port

open Kernel

section Device

/-- What the callbacks of port.c work on. -/
structure PortDevice (γ : Type) where
  board : Board γ
  receiver : FileReceiver

variable {γ : Type}
variable (pin : OutputPin γ)

/-- The registers that a list of them starts with. -/
def registersOf (regs : List UInt16) (i : Nat) : UInt16 :=
  regs.getD i 0

/-- The record that write_file_record is called with. -/
def fileRecordOf (fileNumber recordNumber : UInt16) (regs : List UInt16)
    (count : UInt16) : FileRecord where
  fileNumber := fileNumber
  recordNumber := recordNumber
  registers := registersOf regs
  count := count

/-- The callbacks that nmbs_server_init of port.c assigns. -/
def portCallbacks : NmbsCallbacks (PortDevice γ) where
  readHoldingRegisters := some fun d address quantity registersOut _ =>
    (serverReadHoldingRegisters pin d.board address quantity registersOut, d)
  writeSingleRegister := some fun d address value _ =>
    let r := serverWriteSingleRegister pin d.board address value
    (r.1, { d with board := r.2 })
  writeMultipleRegisters := some fun d address quantity regs _ =>
    let r := serverWriteMultipleRegisters pin d.board address quantity
      (registersOf regs)
    (r.1, { d with board := r.2 })
  writeFileRecord := some fun d fileNumber recordNumber regs count _ =>
    let r := serverWriteFileRecord d.receiver
      (fileRecordOf fileNumber recordNumber regs count)
    (r.1, { d with receiver := r.2 })

end Device

section Structures

/-- The mark of a structure that a create function has filled. -/
def initializedMark : UInt32 := 0xFFFFDEBE

/-- nmbs_platform_conf -/
structure NmbsPlatformConf where
  transport : UInt32
  read : Bool
  write : Bool
  crcCalc : Option (List UInt8 → UInt16)
  initialized : UInt32

/-- nmbs_callbacks with its mark. -/
structure NmbsCallbacksArg (δ : Type) where
  callbacks : NmbsCallbacks δ
  initialized : UInt32

/-- nmbs_t -/
structure NmbsT (δ : Type) where
  msg : NmbsMsg
  callbacks : NmbsCallbacksArg δ
  byteTimeoutMs : Int32
  readTimeoutMs : Int32
  platform : NmbsPlatformConf
  addressRtu : UInt8
  destAddressRtu : UInt8
  currentTid : UInt16

variable {δ : Type}

/-- A platform configuration of zero bytes. -/
def NmbsPlatformConf.zero : NmbsPlatformConf :=
  ⟨0, false, false, none, 0⟩

/-- Callbacks of zero bytes. -/
def NmbsCallbacksArg.zero : NmbsCallbacksArg δ :=
  ⟨⟨none, none, none, none⟩, 0⟩

/-- An instance of zero bytes. -/
def NmbsT.zero : NmbsT δ where
  msg := ⟨fun _ => 0, 0, 0, 0, 0, false, false, false⟩
  callbacks := .zero
  byteTimeoutMs := 0
  readTimeoutMs := 0
  platform := .zero
  addressRtu := 0
  destAddressRtu := 0
  currentTid := 0

/-- The number of a transport in nmbs_transport. -/
def NmbsTransport.number : NmbsTransport → UInt32
  | .nmbsTransportRtu => 1
  | .nmbsTransportTcp => 2

/-- What polling only reads of an instance; none if it has no check function. -/
def NmbsT.conf (nmbs : NmbsT δ) : Option (NmbsConf δ) :=
  nmbs.platform.crcCalc.map fun crcCalc =>
    { transport :=
        if nmbs.platform.transport = NmbsTransport.nmbsTransportRtu.number then
          .nmbsTransportRtu
        else
          .nmbsTransportTcp
      crcCalc := crcCalc
      addressRtu := nmbs.addressRtu
      callbacks := nmbs.callbacks.callbacks }

/-- What polling writes of an instance, and the device. -/
def NmbsT.server (nmbs : NmbsT δ) (d : δ) : Server δ where
  msg := nmbs.msg
  byteTimeoutMs := nmbs.byteTimeoutMs
  readTimeoutMs := nmbs.readTimeoutMs
  device := d

end Structures

section Creation

variable {δ : Type}

/-- nmbs_platform_conf_create -/
def nmbsPlatformConfCreate : NmbsPlatformConf :=
  { NmbsPlatformConf.zero with
    crcCalc := some nmbsCrcCalc
    initialized := initializedMark }

/-- nmbs_callbacks_create -/
def nmbsCallbacksCreate : NmbsCallbacksArg δ :=
  { NmbsCallbacksArg.zero with initialized := initializedMark }

/-- nmbs_create: the instance is cleared before anything is checked. -/
def nmbsCreate (platformConf : NmbsPlatformConf) : NmbsError × NmbsT δ :=
  let nmbs : NmbsT δ :=
    { NmbsT.zero with byteTimeoutMs := -1, readTimeoutMs := -1 }
  if platformConf.initialized ≠ initializedMark then
    (.errorInvalidArgument, nmbs)
  else if
      platformConf.transport ≠ NmbsTransport.nmbsTransportRtu.number ∧
        platformConf.transport ≠ NmbsTransport.nmbsTransportTcp.number then
    (.errorInvalidArgument, nmbs)
  else if platformConf.read = false ∨ platformConf.write = false then
    (.errorInvalidArgument, nmbs)
  else
    (.errorNone, { nmbs with platform := platformConf })

/-- nmbs_server_create -/
def nmbsServerCreate (nmbs : NmbsT δ) (addressRtu : UInt8)
    (platformConf : NmbsPlatformConf)
    (callbacks : Option (NmbsCallbacksArg δ)) : NmbsError × NmbsT δ :=
  if platformConf.transport = NmbsTransport.nmbsTransportRtu.number ∧
      addressRtu = 0 then
    (.errorInvalidArgument, nmbs)
  else
    match callbacks with
    | none => (.errorInvalidArgument, nmbs)
    | some callbacks =>
        if callbacks.initialized ≠ initializedMark then
          (.errorInvalidArgument, nmbs)
        else
          let ret := nmbsCreate platformConf
          if ret.1 ≠ .errorNone then
            ret
          else
            (.errorNone,
              { ret.2 with addressRtu := addressRtu, callbacks := callbacks })

/-- nmbs_set_byte_timeout -/
def nmbsSetByteTimeout (nmbs : NmbsT δ) (timeoutMs : Int32) : NmbsT δ :=
  { nmbs with byteTimeoutMs := timeoutMs }

/-- nmbs_set_read_timeout -/
def nmbsSetReadTimeout (nmbs : NmbsT δ) (timeoutMs : Int32) : NmbsT δ :=
  { nmbs with readTimeoutMs := timeoutMs }

variable {γ : Type}
variable (pin : OutputPin γ)

/-- nmbs_server_init -/
def nmbsServerInit (nmbs : NmbsT (PortDevice γ)) (nmbsId : UInt8) :
    NmbsError × NmbsT (PortDevice γ) :=
  let conf :=
    { nmbsPlatformConfCreate with
      transport := NmbsTransport.nmbsTransportRtu.number
      read := true
      write := true }
  let cb :=
    { (nmbsCallbacksCreate : NmbsCallbacksArg (PortDevice γ)) with
      callbacks := portCallbacks pin }
  let ret := nmbsServerCreate nmbs nmbsId conf (some cb)
  if ret.1 ≠ .errorNone then
    ret
  else
    (.errorNone, nmbsSetReadTimeout (nmbsSetByteTimeout ret.2 100) 200)

/-- nmbs_id -/
def nmbsId : UInt8 := 0x01

/-- The device when MX_GPIO_Init has reset the LED pin. -/
def startDevice (g : γ) : PortDevice γ where
  board := ⟨0, pin.halGpioWritePin g .gpioPinReset⟩
  receiver := FileReceiver.initial

/-- The part of main before its loop, for the instance and the device. -/
def mainSetup (g : γ) : NmbsT (PortDevice γ) × PortDevice γ :=
  let nmbs := (nmbsServerInit pin NmbsT.zero nmbsId).2
  ((nmbsServerInit pin nmbs nmbsId).2, startDevice pin g)

end Creation

section Start

variable {γ : Type}
variable (pin : OutputPin γ)

/-- The configuration of a server of port.c. -/
def portConf (unit : UInt8) : NmbsConf (PortDevice γ) where
  transport := .nmbsTransportRtu
  crcCalc := nmbsCrcCalc
  addressRtu := unit
  callbacks := portCallbacks pin

/-- A server of port.c before its first poll. -/
def portServer (d : PortDevice γ) : Server (PortDevice γ) where
  msg := ⟨fun _ => 0, 0, 0, 0, 0, false, false, false⟩
  byteTimeoutMs := 100
  readTimeoutMs := 200
  device := d

variable {pin}

/-- What was in the instance before does not matter. -/
theorem nmbsServerInit_eq
    (nmbs : NmbsT (PortDevice γ)) {unit : UInt8} (hunit : unit ≠ 0) :
    nmbsServerInit pin nmbs unit =
      (.errorNone,
        { (NmbsT.zero : NmbsT (PortDevice γ)) with
          callbacks := ⟨portCallbacks pin, initializedMark⟩
          byteTimeoutMs := 100
          readTimeoutMs := 200
          platform := ⟨1, true, true, some nmbsCrcCalc, initializedMark⟩
          addressRtu := unit }) := by
  simp only [nmbsServerInit, nmbsServerCreate, hunit, and_false, if_false]
  rfl

theorem nmbsServerInit_spec
    (nmbs : NmbsT (PortDevice γ)) {unit : UInt8} (hunit : unit ≠ 0)
    (d : PortDevice γ) :
    (nmbsServerInit pin nmbs unit).1 = .errorNone ∧
      (nmbsServerInit pin nmbs unit).2.conf = some (portConf pin unit) ∧
      (nmbsServerInit pin nmbs unit).2.server d = portServer d := by
  rw [nmbsServerInit_eq nmbs hunit]
  exact ⟨rfl, rfl, rfl⟩

/-- The state in which the loop of main begins. -/
theorem mainSetup_spec (pin : OutputPin γ) (g : γ) :
    (mainSetup pin g).1.conf = some (portConf pin nmbsId) ∧
      (mainSetup pin g).1.server (mainSetup pin g).2 =
        portServer (startDevice pin g) := by
  have hunit : nmbsId ≠ 0 := by
    decide
  exact (nmbsServerInit_spec _ hunit (startDevice pin g)).2

end Start

end Port
end ModbusRtu
