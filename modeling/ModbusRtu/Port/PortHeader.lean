import Mathlib.Tactic.IntervalCases
import ModbusRtu.Kernel.HalfwordBytes

/-!
# What the headers of the port declare

The error codes of nanomodbus.h, the sizes and record numbers of port.h, the
header structure of a file transfer and the byte swap of main.h.

The host is the little-endian Cortex-M0, so SWAP16_IF_LE expands to __REV16,
which swaps the two bytes of each halfword of its 32-bit operand. The head
handler reads its header by overlaying modbus_file_send_header_t on the
swapped registers; headerOverlay does the same on the bytes of these
registers as they lie in memory.
-/

namespace ModbusRtu
namespace Port

open Kernel

/-- The codes of nmbs_error: library errors and Modbus exceptions. -/
inductive NmbsError
  | errorInvalidRequest
  | errorInvalidUnitId
  | errorInvalidTcpMbap
  | errorCrc
  | errorTransport
  | errorTimeout
  | errorInvalidResponse
  | errorInvalidArgument
  | errorNone
  | exceptionIllegalFunction
  | exceptionIllegalDataAddress
  | exceptionIllegalDataValue
  | exceptionServerDeviceFailure
deriving DecidableEq, Repr

section Constants

/-- UART2_RX_DMA_BUF_SIZE -/
def uart2RxDmaBufSize : Nat := 256

/-- MOBDUS_PAYLOAD_CHUNK_SIZE -/
def mobdusPayloadChunkSize : Nat := 240

/-- MOBDUS_FILE_SEND_HEAD_REC_NUM -/
def mobdusFileSendHeadRecNum : Nat := 9998

/-- MOBDUS_FILE_SEND_TAIL_REC_NUM -/
def mobdusFileSendTailRecNum : Nat := 9999

/-- MODBUS_FILE_SEND_DATA_RECV_BUF_SIZE -/
def modbusFileSendDataRecvBufSize : Nat := 2048

theorem uart2RxDmaBufSize_pos : 0 < uart2RxDmaBufSize := by
  exact Nat.zero_lt_succ 255

end Constants

section ByteSwap

/-- Swap the two bytes of each halfword of a 32-bit word. -/
def rev16 (x : UInt32) : UInt32 :=
  ((x &&& 0x00ff00ff) <<< 8) ||| ((x >>> 8) &&& 0x00ff00ff)

/-- SWAP16_IF_LE on a little-endian host. -/
def swap16IfLe (x : UInt16) : UInt16 :=
  (rev16 x.toUInt32).toUInt16

@[simp] theorem loByte_swap16IfLe (x : UInt16) :
    loByte (swap16IfLe x) = hiByte x := by
  apply UInt8.eq_of_toBitVec_eq
  apply BitVec.eq_of_getLsbD_eq
  intro i hi
  simp [swap16IfLe, rev16, loByte, hiByte]
  interval_cases i <;> simp

@[simp] theorem hiByte_swap16IfLe (x : UInt16) :
    hiByte (swap16IfLe x) = loByte x := by
  apply UInt8.eq_of_toBitVec_eq
  apply BitVec.eq_of_getLsbD_eq
  intro i hi
  simp [swap16IfLe, rev16, loByte, hiByte]
  interval_cases i <;> simp

/-- Stored little-endian, a swapped register lies in memory in wire order. -/
theorem flatMap_swap16IfLe (xs : List UInt16) :
    (xs.map swap16IfLe).flatMap (fun x => [loByte x, hiByte x]) =
      wireString xs := by
  induction xs with
  | nil =>
      rfl
  | cons x xs ih =>
      simp only [List.map_cons, List.flatMap_cons, ih,
        loByte_swap16IfLe, hiByte_swap16IfLe, wireString_cons]
      rfl

end ByteSwap

section Header

/-- modbus_file_send_header_t -/
structure ModbusFileSendHeader where
  totalLen : UInt32
  nChunks : UInt32
deriving DecidableEq

/-- sizeof(modbus_file_send_header_t) -/
def sizeofModbusFileSendHeader : Nat := 8

/-- The header read from the memory of a halfword buffer. -/
def headerOverlay (buf : Nat → UInt16) : ModbusFileSendHeader where
  totalLen :=
    leWord (loByte (buf 0)) (hiByte (buf 0))
      (loByte (buf 1)) (hiByte (buf 1))
  nChunks :=
    leWord (loByte (buf 2)) (hiByte (buf 2))
      (loByte (buf 3)) (hiByte (buf 3))

/-- Wire bytes that announce a transfer: two little-endian 32-bit numbers. -/
def headerBytes (totalLen nChunks : Nat) : List UInt8 :=
  leBytes totalLen ++ leBytes nChunks

@[simp] theorem length_headerBytes (totalLen nChunks : Nat) :
    (headerBytes totalLen nChunks).length = 8 := by
  rfl

/-- The receiver decodes the header that the two numbers encode. -/
theorem headerOverlay_headerBytes
    {totalLen nChunks : Nat}
    (ht : totalLen < 4294967296)
    (hn : nChunks < 4294967296)
    {registers : Nat → UInt16}
    (hregs : ∀ i, i < 4 → registers i =
      (wireHalfwords (headerBytes totalLen nChunks)).getD i 0) :
    (headerOverlay (fun i => swap16IfLe (registers i))).totalLen.toNat =
        totalLen ∧
      (headerOverlay (fun i => swap16IfLe (registers i))).nChunks.toNat =
        nChunks := by
  have h₀ := hregs 0 (by omega)
  have h₁ := hregs 1 (by omega)
  have h₂ := hregs 2 (by omega)
  have h₃ := hregs 3 (by omega)
  simp only [headerBytes, leBytes, List.cons_append, List.nil_append,
    wireHalfwords, List.getD_cons_zero, List.getD_cons_succ] at h₀ h₁ h₂ h₃
  constructor
  · simp only [headerOverlay, h₀, h₁, loByte_swap16IfLe,
      hiByte_swap16IfLe, hiByte_halfword, loByte_halfword]
    exact leWord_leBytes_toNat totalLen ht
  · simp only [headerOverlay, h₂, h₃, loByte_swap16IfLe,
      hiByte_swap16IfLe, hiByte_halfword, loByte_halfword]
    exact leWord_leBytes_toNat nChunks hn

end Header

end Port
end ModbusRtu
