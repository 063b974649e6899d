import ModbusRtu.Kernel.ByteWindow
import ModbusRtu.Kernel.Dialogue
import ModbusRtu.Port.NmbsCrc
import ModbusRtu.Port.PortHeader

/-!
# The server of nanomodbus.c

The message buffer with its index, the functions that take fields out of it and
put fields into it, the reception and transmission of messages, the request
handlers that config.h leaves enabled, and nmbs_server_poll.

The platform functions read and write are the queries of a dialogue. An answer
to read is the value returned and the bytes stored; it keeps to the contract of
nanomodbus.h, so no more bytes are stored than were asked for, and the value
returned is their number or negative. The callbacks are functions on the state
of a device.

An access outside the message buffer and a halfword access at an odd address of
it are undefined in C, and the second one traps on the Cortex-M0; there the
program goes wrong. The length of the buffer is even and the buffer is the first
member of a structure with word alignment, so an address is even if the index
is. The members of nmbs_t that only nmbs_server_create writes are a parameter.
The index is computed in 16 bits.

The debug output and the user argument of the callbacks are left out.
-/

namespace ModbusRtu
namespace Port

open Kernel

section Codes

/-- The number of a code in nmbs_error. -/
def NmbsError.code : NmbsError → Int
  | .errorInvalidRequest => -8
  | .errorInvalidUnitId => -7
  | .errorInvalidTcpMbap => -6
  | .errorCrc => -5
  | .errorTransport => -4
  | .errorTimeout => -3
  | .errorInvalidResponse => -2
  | .errorInvalidArgument => -1
  | .errorNone => 0
  | .exceptionIllegalFunction => 1
  | .exceptionIllegalDataAddress => 2
  | .exceptionIllegalDataValue => 3
  | .exceptionServerDeviceFailure => 4

/-- nmbs_error_is_exception -/
def NmbsError.isException (e : NmbsError) : Bool :=
  decide (e.code > 0) && decide (e.code < 5)

/-- A code passed as the uint8_t argument of send_exception_msg. -/
def NmbsError.byte (e : NmbsError) : UInt8 :=
  UInt8.ofInt e.code

/-- (nmbs_error) exception, for the bytes recv_res_header lets through. -/
def exceptionOfByte (exception : UInt8) : NmbsError :=
  if exception = 1 then .exceptionIllegalFunction
  else if exception = 2 then .exceptionIllegalDataAddress
  else if exception = 3 then .exceptionIllegalDataValue
  else .exceptionServerDeviceFailure

/-- nmbs_transport -/
inductive NmbsTransport
  | nmbsTransportRtu
  | nmbsTransportTcp
deriving DecidableEq

/-- NMBS_BROADCAST_ADDRESS -/
def nmbsBroadcastAddress : UInt8 := 0

/-- sizeof(nmbs->msg.buf) -/
def msgBufSize : Nat := 260

end Codes

section State

/-- The platform functions with their arguments. -/
inductive LineCall
  | read (count : Nat) (byteTimeoutMs : Int32)
  | write (bytes : List UInt8) (byteTimeoutMs : Int32)
deriving DecidableEq

/-- What read returns, and the bytes it has stored at its buffer argument. -/
structure ReadAnswer (count : Nat) where
  ret : Int
  stored : List UInt8
  length_stored_le : stored.length ≤ count
  ret_eq : ret = stored.length ∨ ret < 0

/-- What the platform functions return. -/
abbrev LineAnswer : LineCall → Type
  | .read count _ => ReadAnswer count
  | .write _ _ => Int

/-- A callback that fills registers: device, address, quantity, unit. -/
abbrev ReadCallback (δ : Type) :=
  δ → UInt16 → UInt16 → (Nat → UInt16) → UInt8 →
    (NmbsError × (Nat → UInt16)) × δ

/--
nmbs_callbacks, with the callbacks that config.h leaves enabled. A callback
gets the registers that its quantity or count lets it access.
-/
structure NmbsCallbacks (δ : Type) where
  readHoldingRegisters : Option (ReadCallback δ)
  writeSingleRegister :
    Option (δ → UInt16 → UInt16 → UInt8 → NmbsError × δ)
  writeMultipleRegisters :
    Option (δ → UInt16 → UInt16 → List UInt16 → UInt8 → NmbsError × δ)
  writeFileRecord :
    Option (δ → UInt16 → UInt16 → List UInt16 → UInt16 → UInt8 →
      NmbsError × δ)

/-- The members of nmbs_t that only its creation writes. -/
structure NmbsConf (δ : Type) where
  transport : NmbsTransport
  crcCalc : List UInt8 → UInt16
  addressRtu : UInt8
  callbacks : NmbsCallbacks δ

/-- The member msg of nmbs_t. -/
structure NmbsMsg where
  buf : ByteMem
  bufIdx : Nat
  unitId : UInt8
  fc : UInt8
  transactionId : UInt16
  broadcast : Bool
  ignored : Bool
  complete : Bool

/-- The members of nmbs_t that polling writes, and the device. -/
structure Server (δ : Type) where
  msg : NmbsMsg
  byteTimeoutMs : Int32
  readTimeoutMs : Int32
  device : δ

/-- A function of the server. -/
abbrev ServerM (δ : Type) :=
  Program (Server δ) LineCall LineAnswer

end State

section Buffer

variable {δ : Type}

/-- Memory with bytes stored from an address on. -/
def storeBytes (m : ByteMem) (a : Nat) (bytes : List UInt8) : ByteMem :=
  fun k => if a ≤ k then bytes.getD (k - a) (m k) else m k

/-- platform.read -/
def platformRead (count : Nat) (byteTimeoutMs : Int32) :
    ServerM δ (ReadAnswer count) :=
  query (LineCall.read count byteTimeoutMs)

/-- platform.write -/
def platformWrite (bytes : List UInt8) (byteTimeoutMs : Int32) :
    ServerM δ Int :=
  query (LineCall.write bytes byteTimeoutMs)

/-- Change the message. -/
def modifyMsg (f : NmbsMsg → NmbsMsg) : ServerM δ PUnit :=
  modify fun s => { s with msg := f s.msg }

/-- Change the device and return what the callback returns. -/
def callback {α : Type} (f : δ → α × δ) : ServerM δ α :=
  fun s => .ret ((f s.device).1, { s with device := (f s.device).2 })

/-- An access to n bytes from a buffer index on is defined. -/
def Inside (a n : Nat) : Prop :=
  n = 0 ∨ a + n ≤ msgBufSize

instance (a n : Nat) : Decidable (Inside a n) :=
  inferInstanceAs (Decidable (_ ∨ _))

/-- Store bytes from a buffer index on. -/
def storeAt (a : Nat) (bytes : List UInt8) : ServerM δ PUnit :=
  if Inside a bytes.length then
    modifyMsg fun m => { m with buf := storeBytes m.buf a bytes }
  else
    goWrong

/-- Load n bytes from a buffer index on. -/
def loadAt (a n : Nat) : ServerM δ (List UInt8) :=
  if Inside a n then
    inspect fun s => window s.msg.buf a n
  else
    goWrong

/-- discard_n, and discard_1 for one byte -/
def discardN (n : Nat) : ServerM δ PUnit :=
  modifyMsg fun m => { m with bufIdx := (m.bufIdx + n) % 65536 }

/-- get_1 -/
def get1 : ServerM δ UInt8 := do
  let i ← inspect fun s => s.msg.bufIdx
  let bytes ← loadAt i 1
  discardN 1
  pure (bytes.getD 0 0)

/-- get_2 -/
def get2 : ServerM δ UInt16 := do
  let i ← inspect fun s => s.msg.bufIdx
  let bytes ← loadAt i 2
  discardN 2
  pure (halfword (bytes.getD 0 0) (bytes.getD 1 0))

/-- put_1 -/
def put1 (data : UInt8) : ServerM δ PUnit := do
  let i ← inspect fun s => s.msg.bufIdx
  storeAt i [data]
  discardN 1

/-- put_2 -/
def put2 (data : UInt16) : ServerM δ PUnit := do
  let i ← inspect fun s => s.msg.bufIdx
  storeAt i (wireBytes data)
  discardN 2

/-- get_n: the index the pointer refers to. -/
def getN (n : Nat) : ServerM δ Nat := do
  let i ← inspect fun s => s.msg.bufIdx
  discardN n
  pure i

/-- The halfword at a buffer index as the little-endian host reads it. -/
def hostHalfword (m : ByteMem) (a : Nat) : UInt16 :=
  halfword (m (a + 1)) (m a)

/-- Exchange the bytes of the halfword at a buffer index. -/
def swapReg (a : Nat) : ServerM δ PUnit :=
  if a % 2 = 0 ∧ a + 2 ≤ msgBufSize then
    modifyMsg fun m => { m with buf := storeBytes m.buf a [m.buf (a + 1), m.buf a] }
  else
    goWrong

/-- swap_regs, and the loop of get_regs: from the last register down. -/
def swapRegs (data : Nat) : Nat → ServerM δ PUnit
  | 0 => pure ⟨⟩
  | n + 1 => do
      swapReg (data + 2 * n)
      swapRegs data n

/-- get_regs: the index the pointer refers to. -/
def getRegs (n : Nat) : ServerM δ Nat := do
  let i ← getN (n * 2)
  swapRegs i n
  pure i

/-- Loops that read n registers with get_2. -/
def getWords : Nat → ServerM δ (List UInt16)
  | 0 => pure []
  | n + 1 => do
      let word ← get2
      let words ← getWords n
      pure (word :: words)

/-- Loops that write registers with put_2. -/
def putWords : List UInt16 → ServerM δ PUnit
  | [] => pure ⟨⟩
  | word :: words => do
      put2 word
      putWords words

end Buffer

section Messages

variable {δ : Type}
variable (conf : NmbsConf δ)

/-- err = x; if (err != NMBS_ERROR_NONE) return err; -/
def orReturn (x rest : ServerM δ NmbsError) : ServerM δ NmbsError := do
  let err ← x
  if err ≠ .errorNone then pure err else rest

/-- What recv and send make of the value the platform returns. -/
def transferStatus (ret : Int) (count : Nat) : NmbsError :=
  if ret = count then .errorNone
  else if ret < count then
    if ret < 0 then .errorTransport else .errorTimeout
  else .errorTransport

/-- recv -/
def recv (count : Nat) : ServerM δ NmbsError := do
  if ← inspect fun s => s.msg.complete then
    pure .errorNone
  else
    let i ← inspect fun s => s.msg.bufIdx
    let timeout ← inspect fun s => s.byteTimeoutMs
    let answer ← platformRead count timeout
    storeAt i answer.stored
    pure (transferStatus answer.ret count)

/-- send -/
def send (count : Nat) : ServerM δ NmbsError := do
  let bytes ← loadAt 0 count
  let timeout ← inspect fun s => s.byteTimeoutMs
  let ret ← platformWrite bytes timeout
  pure (transferStatus ret count)

/-- flush -/
def Server.flush : ServerM δ PUnit := do
  let answer ← platformRead msgBufSize 0
  storeAt 0 answer.stored

/-- msg_buf_reset -/
def msgBufReset : ServerM δ PUnit :=
  modifyMsg fun m => { m with bufIdx := 0 }

/-- msg_state_reset -/
def msgStateReset : ServerM δ PUnit :=
  modifyMsg fun m =>
    { m with
      bufIdx := 0
      unitId := 0
      fc := 0
      transactionId := 0
      broadcast := false
      ignored := false
      complete := false }

/-- recv_msg_footer -/
def recvMsgFooter : ServerM δ NmbsError :=
  match conf.transport with
  | .nmbsTransportRtu => do
      let n ← inspect fun s => s.msg.bufIdx
      let bytes ← loadAt 0 n
      let crc := conf.crcCalc bytes
      orReturn (recv 2) do
        let recvCrc ← get2
        if recvCrc ≠ crc then
          pure .errorCrc
        else
          pure .errorNone
  | .nmbsTransportTcp => pure .errorNone

/-- recv_msg_header: the error and first_byte_received. -/
def recvMsgHeader : ServerM δ (NmbsError × Bool) := do
  let oldByteTimeout ← inspect fun s => s.byteTimeoutMs
  modify fun s => { s with byteTimeoutMs := s.readTimeoutMs }
  msgStateReset
  match conf.transport with
  | .nmbsTransportRtu => do
      let err ← recv 1
      modify fun s => { s with byteTimeoutMs := oldByteTimeout }
      if err ≠ .errorNone then
        pure (err, false)
      else
        let unitId ← get1
        modifyMsg fun m => { m with unitId := unitId }
        let err ← recv 1
        if err ≠ .errorNone then
          pure (err, true)
        else
          let fc ← get1
          modifyMsg fun m => { m with fc := fc }
          pure (.errorNone, true)
  | .nmbsTransportTcp => do
      let err ← recv 1
      modify fun s => { s with byteTimeoutMs := oldByteTimeout }
      if err ≠ .errorNone then
        pure (err, false)
      else
        discardN 1
        let err ← recv 7
        if err ≠ .errorNone then
          pure (err, true)
        else
          msgBufReset
          let transactionId ← get2
          modifyMsg fun m => { m with transactionId := transactionId }
          let protocolId ← get2
          let length ← get2
          let unitId ← get1
          modifyMsg fun m => { m with unitId := unitId }
          let fc ← get1
          modifyMsg fun m => { m with fc := fc }
          if length.toNat < 2 ∨ length.toNat > 255 then
            pure (.errorInvalidTcpMbap, true)
          else
            let err ← recv (length.toNat - 2)
            if err ≠ .errorNone then
              pure (err, true)
            else if protocolId ≠ 0 then
              pure (.errorInvalidTcpMbap, true)
            else
              modifyMsg fun m => { m with complete := true }
              pure (.errorNone, true)

/-- put_msg_header, and put_res_header -/
def putMsgHeader (dataLength : Nat) : ServerM δ PUnit := do
  msgBufReset
  match conf.transport with
  | .nmbsTransportRtu => do
      let unitId ← inspect fun s => s.msg.unitId
      put1 unitId
  | .nmbsTransportTcp => do
      let transactionId ← inspect fun s => s.msg.transactionId
      put2 transactionId
      put2 0
      put2 (UInt16.ofNat (1 + 1 + dataLength))
      let unitId ← inspect fun s => s.msg.unitId
      put1 unitId
  let fc ← inspect fun s => s.msg.fc
  put1 fc

/-- send_msg -/
def sendMsg : ServerM δ NmbsError := do
  match conf.transport with
  | .nmbsTransportRtu => do
      let n ← inspect fun s => s.msg.bufIdx
      let bytes ← loadAt 0 n
      put2 (conf.crcCalc bytes)
  | .nmbsTransportTcp => pure ⟨⟩
  let n ← inspect fun s => s.msg.bufIdx
  send n

/-- recv_req_header: the error and first_byte_received. -/
def recvReqHeader : ServerM δ (NmbsError × Bool) := do
  let (err, firstByteReceived) ← recvMsgHeader conf
  if err ≠ .errorNone then
    pure (err, firstByteReceived)
  else
    match conf.transport with
    | .nmbsTransportRtu =>
        modifyMsg fun m =>
          if m.unitId = nmbsBroadcastAddress then
            { m with broadcast := true }
          else if m.unitId ≠ conf.addressRtu then
            { m with ignored := true }
          else
            { m with ignored := false }
    | .nmbsTransportTcp => pure ⟨⟩
    pure (.errorNone, firstByteReceived)

/-- send_exception_msg -/
def sendExceptionMsg (exception : UInt8) : ServerM δ NmbsError := do
  if ← inspect fun s => s.msg.broadcast then
    pure .errorNone
  else
    modifyMsg fun m => { m with fc := m.fc + 0x80 }
    putMsgHeader conf 1
    put1 exception
    sendMsg conf

/-- The exception with which handlers answer an error of a callback. -/
def sendCallbackError (err : NmbsError) : ServerM δ NmbsError :=
  if err.isException then
    sendExceptionMsg conf err.byte
  else
    sendExceptionMsg conf NmbsError.exceptionServerDeviceFailure.byte

end Messages

section Responses

variable {δ : Type}
variable (conf : NmbsConf δ)

/-- recv_res_header -/
def recvResHeader : ServerM δ NmbsError := do
  let reqTransactionId ← inspect fun s => s.msg.transactionId
  let reqUnitId ← inspect fun s => s.msg.unitId
  let reqFc ← inspect fun s => s.msg.fc
  let (err, _) ← recvMsgHeader conf
  if err ≠ .errorNone then
    pure err
  else
    let m ← inspect fun s => s.msg
    if conf.transport = .nmbsTransportTcp ∧
        m.transactionId ≠ reqTransactionId then
      pure .errorInvalidTcpMbap
    else if conf.transport = .nmbsTransportRtu ∧ m.unitId ≠ reqUnitId then
      pure .errorInvalidUnitId
    else if m.fc ≠ reqFc then
      if (m.fc.toNat : Int) - 0x80 = reqFc.toNat then
        orReturn (recv 1) do
          let exception ← get1
          orReturn (recvMsgFooter conf) do
            if exception < 1 ∨ exception > 4 then
              pure .errorInvalidResponse
            else
              pure (exceptionOfByte exception)
      else
        pure .errorInvalidResponse
    else
      pure .errorNone

/-- recv_read_registers_res, called with no place for the registers -/
def recvReadRegistersRes (quantity : UInt16) : ServerM δ NmbsError :=
  orReturn (recvResHeader conf) do
    orReturn (recv 1) do
      let registersBytes ← get1
      if registersBytes > 250 then
        pure .errorInvalidResponse
      else
        orReturn (recv registersBytes.toNat) do
          let _ ← getWords (registersBytes.toNat / 2)
          orReturn (recvMsgFooter conf) do
            if registersBytes.toNat ≠ quantity.toNat * 2 then
              pure .errorInvalidResponse
            else
              pure .errorNone

/--
recv_write_single_register_res and recv_write_multiple_registers_res, which
differ in the name of the second field.
-/
def recvWriteRes (address value : UInt16) : ServerM δ NmbsError :=
  orReturn (recvResHeader conf) do
    orReturn (recv 4) do
      let addressRes ← get2
      let valueRes ← get2
      orReturn (recvMsgFooter conf) do
        if addressRes ≠ address then
          pure .errorInvalidResponse
        else if valueRes ≠ value then
          pure .errorInvalidResponse
        else
          pure .errorNone

/-- recv_write_single_register_res -/
def recvWriteSingleRegisterRes (address valueReq : UInt16) :
    ServerM δ NmbsError :=
  recvWriteRes conf address valueReq

/-- recv_write_multiple_registers_res -/
def recvWriteMultipleRegistersRes (address quantity : UInt16) :
    ServerM δ NmbsError :=
  recvWriteRes conf address quantity

/-- recv_write_file_record_res, called with no registers to compare with -/
def recvWriteFileRecordRes : ServerM δ NmbsError :=
  orReturn (recvResHeader conf) do
    orReturn (recv 1) do
      let responseSize ← get1
      if responseSize > 251 then
        pure .errorInvalidResponse
      else
        orReturn (recv responseSize.toNat) do
          let _ ← get1
          let _ ← get2
          let _ ← get2
          let subreqRecordLength ← get2
          let _ ← getN (subreqRecordLength.toNat * 2 % 65536)
          orReturn (recvMsgFooter conf) do
            pure .errorNone

end Responses

section Requests

variable {δ : Type}
variable (conf : NmbsConf δ)

/-- The response to a write request repeats two of its fields. -/
def sendWriteResponse (first second : UInt16) : ServerM δ NmbsError := do
  if ← inspect fun s => s.msg.broadcast then
    pure .errorNone
  else
    putMsgHeader conf 4
    put2 first
    put2 second
    sendMsg conf

/-- The branch of handle_read_registers for a message that is not ignored -/
def answerReadRegisters
    (cb : Option (ReadCallback δ)) (address quantity : UInt16) :
    ServerM δ NmbsError := do
  if quantity < 1 ∨ quantity > 125 then
    sendExceptionMsg conf NmbsError.exceptionIllegalDataValue.byte
  else if address.toNat + quantity.toNat > 0xFFFF + 1 then
    sendExceptionMsg conf NmbsError.exceptionIllegalDataAddress.byte
  else
    match cb with
    | some cb =>
        let unitId ← inspect fun s => s.msg.unitId
        let (err, regs) ← callback fun d =>
          cb d address quantity (fun _ => 0) unitId
        if err ≠ .errorNone then
          sendCallbackError conf err
        else if ← inspect fun s => s.msg.broadcast then
          pure .errorNone
        else
          let regsBytes := UInt8.ofNat (quantity.toNat * 2)
          putMsgHeader conf (1 + regsBytes.toNat)
          put1 regsBytes
          putWords ((List.range quantity.toNat).map regs)
          sendMsg conf
    | none =>
        sendExceptionMsg conf NmbsError.exceptionIllegalFunction.byte

/-- handle_read_registers -/
def handleReadRegisters (cb : Option (ReadCallback δ)) :
    ServerM δ NmbsError :=
  orReturn (recv 4) do
    let address ← get2
    let quantity ← get2
    orReturn (recvMsgFooter conf) do
      if ← inspect fun s => s.msg.ignored then
        recvReadRegistersRes conf quantity
      else
        answerReadRegisters conf cb address quantity

/-- handle_read_holding_registers -/
def handleReadHoldingRegisters : ServerM δ NmbsError :=
  handleReadRegisters conf conf.callbacks.readHoldingRegisters

/-- The branch of handle_write_single_register for a message not ignored -/
def answerWriteSingleRegister (address value : UInt16) :
    ServerM δ NmbsError := do
  match conf.callbacks.writeSingleRegister with
  | some cb =>
      let unitId ← inspect fun s => s.msg.unitId
      let err ← callback fun d => cb d address value unitId
      if err ≠ .errorNone then
        sendCallbackError conf err
      else
        sendWriteResponse conf address value
  | none =>
      sendExceptionMsg conf NmbsError.exceptionIllegalFunction.byte

/-- handle_write_single_register -/
def handleWriteSingleRegister : ServerM δ NmbsError :=
  orReturn (recv 4) do
    let address ← get2
    let value ← get2
    orReturn (recvMsgFooter conf) do
      if ← inspect fun s => s.msg.ignored then
        recvWriteSingleRegisterRes conf address value
      else
        answerWriteSingleRegister conf address value

/-- The branch of handle_write_multiple_registers for a message not ignored -/
def answerWriteMultipleRegisters
    (address quantity : UInt16) (registersBytes : UInt8)
    (registers : List UInt16) : ServerM δ NmbsError := do
  if quantity < 1 ∨ quantity > 0x007B then
    sendExceptionMsg conf NmbsError.exceptionIllegalDataValue.byte
  else if address.toNat + quantity.toNat > 0xFFFF + 1 then
    sendExceptionMsg conf NmbsError.exceptionIllegalDataAddress.byte
  else if registersBytes = 0 then
    sendExceptionMsg conf NmbsError.exceptionIllegalDataValue.byte
  else if registersBytes.toNat ≠ quantity.toNat * 2 then
    sendExceptionMsg conf NmbsError.exceptionIllegalDataValue.byte
  else
    match conf.callbacks.writeMultipleRegisters with
    | some cb =>
        let unitId ← inspect fun s => s.msg.unitId
        let err ← callback fun d =>
          cb d address quantity registers unitId
        if err ≠ .errorNone then
          sendCallbackError conf err
        else
          sendWriteResponse conf address quantity
    | none =>
        sendExceptionMsg conf NmbsError.exceptionIllegalFunction.byte

/-- handle_write_multiple_registers -/
def handleWriteMultipleRegisters : ServerM δ NmbsError :=
  orReturn (recv 5) do
    let address ← get2
    let quantity ← get2
    let registersBytes ← get1
    orReturn (recv registersBytes.toNat) do
      if registersBytes > 246 then
        pure .errorInvalidRequest
      else
        let registers ← getWords (registersBytes.toNat / 2)
        orReturn (recvMsgFooter conf) do
          if ← inspect fun s => s.msg.ignored then
            recvWriteMultipleRegistersRes conf address quantity
          else
            answerWriteMultipleRegisters conf address quantity
              registersBytes registers

end Requests

section FileRequests

variable {δ : Type}
variable (conf : NmbsConf δ)

/-- size -= (subreq_header_size + subreq_record_length * 2), in 16 bits -/
def restSize (size : Nat) (subreqRecordLength : UInt16) : Nat :=
  (size + 65536 - (7 + subreqRecordLength.toNat * 2) % 65536) % 65536

/--
The loop of handle_write_file_record that checks the records: the exception to
answer with, or the size left. The fuel is a bound on the number of passes.
-/
def checkRecords : Nat → Nat → ServerM δ (Except NmbsError Nat)
  | 0, _ => goWrong
  | fuel + 1, size => do
      let subreqReferenceType ← get1
      let subreqFileNumber ← get2
      let subreqRecordNumber ← get2
      let subreqRecordLength ← get2
      discardN (subreqRecordLength.toNat * 2)
      if subreqReferenceType ≠ 0x06 then
        pure (.error .exceptionIllegalDataAddress)
      else if subreqFileNumber = 0x0000 then
        pure (.error .exceptionIllegalDataAddress)
      else if subreqRecordNumber > 0x270F then
        pure (.error .exceptionIllegalDataAddress)
      else if subreqRecordLength > 122 then
        pure (.error .exceptionIllegalDataAddress)
      else if restSize size subreqRecordLength ≥ 7 then
        checkRecords fuel (restSize size subreqRecordLength)
      else
        pure (.ok (restSize size subreqRecordLength))

/--
The loop of handle_write_file_record that hands the records to the callback:
the exception to answer with, or errorNone behind the last record.
-/
def processRecords : Nat → Nat → ServerM δ NmbsError
  | 0, _ => goWrong
  | fuel + 1, size => do
      discardN 1
      let subreqFileNumber ← get2
      let subreqRecordNumber ← get2
      let subreqRecordLength ← get2
      let subreqData ← getRegs subreqRecordLength.toNat
      match conf.callbacks.writeFileRecord with
      | some cb =>
          let unitId ← inspect fun s => s.msg.unitId
          let buf ← inspect fun s => s.msg.buf
          let err ← callback fun d =>
            cb d subreqFileNumber subreqRecordNumber
              ((List.range subreqRecordLength.toNat).map fun i =>
                hostHalfword buf (subreqData + 2 * i))
              subreqRecordLength unitId
          if err ≠ .errorNone then
            if err.isException then
              pure err
            else
              pure .exceptionServerDeviceFailure
          else
            swapRegs subreqData subreqRecordLength.toNat
            if restSize size subreqRecordLength ≥ 7 then
              processRecords fuel (restSize size subreqRecordLength)
            else
              pure .errorNone
      | none =>
          pure .exceptionIllegalFunction

/-- The branch of handle_write_file_record for a message not ignored -/
def answerWriteFileRecord (requestSize msgBufIdx : Nat) :
    ServerM δ NmbsError := do
  modifyMsg fun m => { m with bufIdx := msgBufIdx }
  if requestSize < 7 then
    sendExceptionMsg conf NmbsError.exceptionIllegalDataValue.byte
  else
    match ← checkRecords msgBufSize requestSize with
    | .error exception => sendExceptionMsg conf exception.byte
    | .ok size =>
        if size ≠ 0 then
          sendExceptionMsg conf NmbsError.exceptionIllegalDataValue.byte
        else
          modifyMsg fun m => { m with bufIdx := msgBufIdx }
          let exception ← processRecords conf msgBufSize requestSize
          if exception ≠ .errorNone then
            sendExceptionMsg conf exception.byte
          else if ← inspect fun s => s.msg.broadcast then
            pure .errorNone
          else
            modifyMsg fun m => { m with bufIdx := msgBufIdx }
            discardN requestSize
            sendMsg conf

/-- handle_write_file_record -/
def handleWriteFileRecord : ServerM δ NmbsError :=
  orReturn (recv 1) do
    let requestSize ← get1
    if requestSize > 251 then
      pure .errorInvalidRequest
    else
      orReturn (recv requestSize.toNat) do
        let msgBufIdx ← inspect fun s => s.msg.bufIdx
        discardN requestSize.toNat
        orReturn (recvMsgFooter conf) do
          if ← inspect fun s => s.msg.ignored then
            recvWriteFileRecordRes conf
          else
            answerWriteFileRecord conf requestSize.toNat msgBufIdx

end FileRequests

section Poll

variable {δ : Type}
variable (conf : NmbsConf δ)

/-- handle_req_fc, with the function codes that config.h leaves enabled. -/
def handleReqFc : ServerM δ NmbsError := do
  let fc ← inspect fun s => s.msg.fc
  if fc = 3 then
    handleReadHoldingRegisters conf
  else if fc = 6 then
    handleWriteSingleRegister conf
  else if fc = 16 then
    handleWriteMultipleRegisters conf
  else if fc = 21 then
    handleWriteFileRecord conf
  else
    Server.flush
    if ← inspect fun s => s.msg.ignored then
      pure .errorNone
    else
      sendExceptionMsg conf NmbsError.exceptionIllegalFunction.byte

/-- nmbs_server_poll -/
def nmbsServerPoll : ServerM δ NmbsError := do
  msgStateReset
  let (err, firstByteReceived) ← recvReqHeader conf
  if err ≠ .errorNone then
    if firstByteReceived = false ∧ err = .errorTimeout then
      pure .errorNone
    else
      pure err
  else
    let err ← handleReqFc conf
    if err ≠ .errorNone then
      if err ≠ .errorTimeout then
        Server.flush
      pure err
    else
      pure .errorNone

end Poll

end Port
end ModbusRtu
