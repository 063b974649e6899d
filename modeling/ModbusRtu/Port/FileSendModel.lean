import ModbusRtu.Kernel.ByteWindow
import ModbusRtu.Kernel.MachineRun
import ModbusRtu.Port.PortHeader

/-!
# The file-receive handlers of the server

The three chunk handlers of port.c and the callback server_write_file_record
that routes a record to one of them, as functions from a receiver state to an
error code and the next state.

The receiver state is the context structure, the memory from the first byte of
the static receive buffer on, and the texts that the tail has handed on. A
pointer is NULL (none) or a byte offset from the start of that buffer (some).
Memory behind the buffer is part of the model, so a store past the end of the
buffer would be a change there. The register argument is the memory the
pointer refers to: any function from indices to halfwords.

The text that a tail hands on is what printf scans: the bytes from recv_buf up
to the first zero byte. The model ends the scan with the buffer, since what the
program does behind it is undefined.

The debug output of the handlers is left out, the unit identifier and the
callback argument with it, since they are used for nothing else.
-/

namespace ModbusRtu
namespace Port

open Kernel

section State

/-- A byte pointer: NULL or an offset into the static receive buffer. -/
abbrev BytePtr := Option Nat

/-- modbus_file_send_data_ctx_t -/
structure ModbusFileSendDataCtx where
  recvBuf : BytePtr
  recvBufPtr : BytePtr
  recvBufRest : UInt32
deriving DecidableEq

/-- The static array _modbus_file_send_data_recv_buf as a pointer. -/
def modbusFileSendDataRecvBuf : BytePtr := some 0

/-- Context, memory from the static buffer on, and texts handed on so far. -/
structure FileReceiver where
  ctx : ModbusFileSendDataCtx
  mem : ByteMem
  printed : List (List UInt8)

/-- The receiver after reset: a null context and a zeroed buffer. -/
def FileReceiver.initial : FileReceiver where
  ctx := { recvBuf := none, recvBufPtr := none, recvBufRest := 0 }
  mem := fun _ => 0
  printed := []

/-- The arguments of one call of server_write_file_record. -/
structure FileRecord where
  fileNumber : UInt16
  recordNumber : UInt16
  registers : Nat → UInt16
  count : UInt16

end State

section Handlers

/-- Cleanup of a session that was not completed correctly. -/
def cleanupStaleSession
    (ctx : ModbusFileSendDataCtx) : ModbusFileSendDataCtx :=
  if ctx.recvBuf ≠ none ∨ ctx.recvBufPtr ≠ none ∨ ctx.recvBufRest ≠ 0 then
    let ctx := { ctx with recvBufRest := 0, recvBufPtr := none }
    if ctx.recvBuf ≠ none then
      { ctx with recvBuf := none }
    else
      ctx
  else
    ctx

/-- modbus_file_send_process_head_chunk -/
def modbusFileSendProcessHeadChunk
    (s : FileReceiver) (registers : Nat → UInt16) (count : UInt16) :
    NmbsError × FileReceiver :=
  if count.toNat * 2 ≠ sizeofModbusFileSendHeader then
    (.errorInvalidRequest, s)
  else
    let buf := fun i => swap16IfLe (registers i)
    let hdr := headerOverlay buf
    if hdr.nChunks.toNat > mobdusFileSendHeadRecNum then
      (.errorInvalidRequest, s)
    else if hdr.totalLen.toNat > modbusFileSendDataRecvBufSize then
      (.errorInvalidRequest, s)
    else
      let ctx := cleanupStaleSession s.ctx
      let ctx := { ctx with recvBuf := modbusFileSendDataRecvBuf }
      let ctx := { ctx with recvBufPtr := ctx.recvBuf }
      let ctx := { ctx with recvBufRest := hdr.totalLen }
      (.errorNone, { s with ctx := ctx })

/-- modbus_file_send_process_tail_chunk -/
def modbusFileSendProcessTailChunk
    (s : FileReceiver) : NmbsError × FileReceiver :=
  let recvBuf := s.ctx.recvBuf
  if s.ctx.recvBufPtr ≠ none then
    let ctx := { s.ctx with recvBufPtr := none }
    if ctx.recvBufRest ≠ 0 then
      (.errorInvalidRequest,
        { s with ctx := { ctx with recvBufRest := 0 } })
    else
      match recvBuf with
      | some buf =>
          let text :=
            cString s.mem buf (modbusFileSendDataRecvBufSize - buf)
          (.errorNone,
            { s with
              ctx := { ctx with recvBuf := none }
              printed := s.printed ++ [text] })
      | none =>
          (.errorInvalidRequest, { s with ctx := ctx })
  else
    (.errorInvalidRequest,
      { s with ctx := { s.ctx with recvBufRest := 0 } })

/-- Outcome of the register loop of the data handler. -/
structure DataLoop where
  status : NmbsError
  rest : UInt32
  stores : List HalfwordStore

/-- The register loop from index i on, with n registers still to go. -/
def dataChunkLoop (ptr : Nat) (registers : Nat → UInt16) :
    Nat → Nat → UInt32 → DataLoop
  | _, 0, rest =>
      { status := .errorNone, rest := rest, stores := [] }
  | i, n + 1, rest =>
      if rest < 2 then
        { status := .errorInvalidRequest, rest := rest, stores := [] }
      else
        let st : HalfwordStore := ⟨ptr + 2 * i, swap16IfLe (registers i)⟩
        let next := dataChunkLoop ptr registers (i + 1) n (rest - 2)
        { next with stores := st :: next.stores }

/-- modbus_file_send_process_data_chunk -/
def modbusFileSendProcessDataChunk
    (s : FileReceiver) (registers : Nat → UInt16) (count : UInt16) :
    NmbsError × FileReceiver :=
  match s.ctx.recvBufPtr with
  | none => (.errorInvalidRequest, s)
  | some ptr =>
      if count.toNat * 2 > mobdusPayloadChunkSize then
        (.errorInvalidRequest, s)
      else
        let loop :=
          dataChunkLoop ptr registers 0 count.toNat s.ctx.recvBufRest
        let s :=
          { s with
            ctx := { s.ctx with recvBufRest := loop.rest }
            mem := storeAll s.mem loop.stores }
        if loop.status = .errorNone then
          let ctx := { s.ctx with recvBufPtr := some (ptr + count.toNat * 2) }
          (.errorNone, { s with ctx := ctx })
        else
          (loop.status, s)

/-- server_write_file_record -/
def serverWriteFileRecord
    (s : FileReceiver) (r : FileRecord) : NmbsError × FileReceiver :=
  if r.recordNumber.toNat > mobdusFileSendTailRecNum then
    (.errorInvalidRequest, s)
  else if r.recordNumber.toNat = mobdusFileSendHeadRecNum then
    modbusFileSendProcessHeadChunk s r.registers r.count
  else if r.recordNumber.toNat = mobdusFileSendTailRecNum then
    modbusFileSendProcessTailChunk s
  else
    modbusFileSendProcessDataChunk s r.registers r.count

end Handlers

section Records

/-- The four ways a record number is routed. -/
inductive RecordKind
  | head
  | tail
  | data
  | outOfRange
deriving DecidableEq

/-- Routing of a record by its number. -/
def FileRecord.kind (r : FileRecord) : RecordKind :=
  if r.recordNumber.toNat > mobdusFileSendTailRecNum then .outOfRange
  else if r.recordNumber.toNat = mobdusFileSendHeadRecNum then .head
  else if r.recordNumber.toNat = mobdusFileSendTailRecNum then .tail
  else .data

/-- The header a record carries when it is read as a head. -/
def FileRecord.header (r : FileRecord) : ModbusFileSendHeader :=
  headerOverlay (fun i => swap16IfLe (r.registers i))

/-- The registers of a record as a list. -/
def FileRecord.payload (r : FileRecord) : List UInt16 :=
  (List.range r.count.toNat).map r.registers

/-- The bytes of a record in wire order. -/
def FileRecord.bytes (r : FileRecord) : List UInt8 :=
  wireString r.payload

/-- The record that carries a given register list. -/
def FileRecord.ofRegisters
    (fileNumber recordNumber : UInt16) (xs : List UInt16) : FileRecord where
  fileNumber := fileNumber
  recordNumber := recordNumber
  registers := fun i => xs.getD i 0
  count := UInt16.ofNat xs.length

@[simp] theorem length_payload (r : FileRecord) :
    r.payload.length = r.count.toNat := by
  simp [FileRecord.payload]

@[simp] theorem length_bytes (r : FileRecord) :
    r.bytes.length = 2 * r.count.toNat := by
  simp [FileRecord.bytes]

theorem payload_ofRegisters
    (fileNumber recordNumber : UInt16) {xs : List UInt16}
    (hlen : xs.length < 65536) :
    (FileRecord.ofRegisters fileNumber recordNumber xs).payload = xs := by
  have hcount : (UInt16.ofNat xs.length).toNat = xs.length := by
    rw [UInt16.toNat_ofNat']
    exact Nat.mod_eq_of_lt hlen
  apply List.ext_getElem
  · simp [FileRecord.ofRegisters, hcount]
  · intro i h₁ h₂
    simp [FileRecord.payload, FileRecord.ofRegisters, h₂]

end Records

end Port
end ModbusRtu
