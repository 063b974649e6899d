import ModbusRtu.Kernel.ByteWindow
import ModbusRtu.Kernel.CircularStream
import ModbusRtu.Kernel.MachineRun
import ModbusRtu.Port.PortHeader

/-!
# read_serial and the receive DMA as interleaved steps

The DMA writes the bytes that arrive into uart2_rx_dma_buf while read_serial
reads them. Between any two steps of a call the DMA may write, so a call is
not one function but a control point with its local variables, moved on by
single steps.

The bytes that arrive form a stream. The DMA stores byte k of the stream at
index k modulo the ring size, and its counter register holds the ring size
minus the number of bytes written, modulo the ring size. A step that reads the
tick counter takes the value it reads as an argument, so nothing is assumed of
the clock.

The debug output at the end of a call is left out.
-/

namespace ModbusRtu
namespace Port

open Kernel

section State

/-- The control points of read_serial. -/
inductive ReadPoint
  /-- while (received < count) -/
  | outerTest
  /-- Compute the current DMA write index. -/
  | sample
  /-- while (uart2_rx_dma_last_pos != dma_pos && received < count) -/
  | innerTest
  /-- buf[received++] = uart2_rx_dma_buf[uart2_rx_dma_last_pos] -/
  | copy
  /-- uart2_rx_dma_last_pos++ -/
  | advance
  /-- if (uart2_rx_dma_last_pos >= UART2_RX_DMA_BUF_SIZE) -/
  | wrap
  /-- Timeout check. -/
  | timeout
  /-- return received -/
  | finish
deriving DecidableEq

/-- Arguments and local variables of a call in progress. -/
structure ReadCall where
  buf : ByteMem
  count : UInt16
  byteTimeoutMs : Int32
  dmaPos : UInt16
  received : UInt16
  start : UInt32
  point : ReadPoint

/-- What a call was asked for and what it returns. -/
structure ReadReturn where
  count : UInt16
  received : UInt16
  bytes : List UInt8
deriving DecidableEq

/-- The ring, the bytes the DMA has written, and the reader. -/
structure SerialPort where
  uart2RxDmaBuf : ByteMem
  written : Nat
  uart2RxDmaLastPos : UInt16
  call : Option ReadCall

/-- The port after reset. -/
def SerialPort.initial : SerialPort where
  uart2RxDmaBuf := fun _ => 0
  written := 0
  uart2RxDmaLastPos := 0
  call := none

/-- What may happen next: a byte arrives, a call begins, a call moves on. -/
inductive SerialEvent
  | dmaByte
  | call
      (buf : ByteMem) (count : UInt16) (byteTimeoutMs : Int32)
      (tick : UInt32)
  | step (tick : UInt32)

end State

section Steps

/-- The port with a call at its next control point. -/
def SerialPort.resume (p : SerialPort) (c : ReadCall) : SerialPort :=
  { p with call := some c }

/-- __HAL_DMA_GET_COUNTER -/
def halDmaGetCounter (p : SerialPort) : UInt32 :=
  UInt32.ofNat (uart2RxDmaBufSize - p.written % uart2RxDmaBufSize)

/-- The DMA stores the next byte of the stream. -/
def dmaStore (stream : ByteMem) (p : SerialPort) : SerialPort :=
  { p with
    uart2RxDmaBuf :=
      ringWrite uart2RxDmaBufSize stream p.uart2RxDmaBuf p.written
    written := p.written + 1 }

/-- read_serial from its entry to the first test -/
def readSerial
    (buf : ByteMem) (count : UInt16) (byteTimeoutMs : Int32)
    (tick : UInt32) : ReadCall where
  buf := buf
  count := count
  byteTimeoutMs := byteTimeoutMs
  dmaPos := 0
  received := 0
  start := tick
  point := .outerTest

/-- One step of a call; tick is what HAL_GetTick returns in it. -/
def readSerialStep (p : SerialPort) (c : ReadCall) (tick : UInt32) :
    Option ReadReturn × SerialPort :=
  match c.point with
  | .outerTest =>
      if c.received < c.count then
        (none, p.resume { c with point := .sample })
      else
        (none, p.resume { c with point := .finish })
  | .sample =>
      let dmaPos :=
        (UInt32.ofNat uart2RxDmaBufSize - halDmaGetCounter p).toUInt16
      (none, p.resume { c with dmaPos := dmaPos, point := .innerTest })
  | .innerTest =>
      if p.uart2RxDmaLastPos ≠ c.dmaPos ∧ c.received < c.count then
        (none, p.resume { c with point := .copy })
      else
        (none, p.resume { c with point := .timeout })
  | .copy =>
      let byte := p.uart2RxDmaBuf p.uart2RxDmaLastPos.toNat
      (none,
        p.resume
          { c with
            buf := Function.update c.buf c.received.toNat byte
            received := c.received + 1
            point := .advance })
  | .advance =>
      let p := { p with uart2RxDmaLastPos := p.uart2RxDmaLastPos + 1 }
      (none, p.resume { c with point := .wrap })
  | .wrap =>
      if p.uart2RxDmaLastPos.toNat ≥ uart2RxDmaBufSize then
        let p := { p with uart2RxDmaLastPos := 0 }
        (none, p.resume { c with point := .innerTest })
      else
        (none, p.resume { c with point := .innerTest })
  | .timeout =>
      if c.byteTimeoutMs ≥ 0 then
        if tick - c.start ≥ c.byteTimeoutMs.toUInt32 then
          (none, p.resume { c with point := .finish })
        else
          (none, p.resume { c with point := .outerTest })
      else
        (none, p.resume { c with point := .outerTest })
  | .finish =>
      (some
        { count := c.count
          received := c.received
          bytes := window c.buf 0 c.received.toNat },
        { p with call := none })

/--
One event. A call that begins while another is in progress, and a step without
a call, do not happen and change nothing.
-/
def serialStep (stream : ByteMem) (p : SerialPort) :
    SerialEvent → Option ReadReturn × SerialPort
  | .dmaByte => (none, dmaStore stream p)
  | .call buf count byteTimeoutMs tick =>
      match p.call with
      | none =>
          (none, p.resume (readSerial buf count byteTimeoutMs tick))
      | some _ => (none, p)
  | .step tick =>
      match p.call with
      | none => (none, p)
      | some c => readSerialStep p c tick

end Steps

section Moves

/-- What one step of a call does: guard, reply and next state. -/
inductive ReadMove (p : SerialPort) (c : ReadCall) (tick : UInt32) :
    Option ReadReturn × SerialPort → Prop
  | enter
      (hpoint : c.point = .outerTest)
      (hmore : c.received.toNat < c.count.toNat) :
      ReadMove p c tick (none, p.resume { c with point := .sample })
  | leave
      (hpoint : c.point = .outerTest)
      (hdone : c.count.toNat ≤ c.received.toNat) :
      ReadMove p c tick (none, p.resume { c with point := .finish })
  | sampled
      (hpoint : c.point = .sample)
      (dmaPos : UInt16)
      (hpos : dmaPos.toNat = p.written % uart2RxDmaBufSize) :
      ReadMove p c tick
        (none, p.resume { c with dmaPos := dmaPos, point := .innerTest })
  | unread
      (hpoint : c.point = .innerTest)
      (hne : p.uart2RxDmaLastPos ≠ c.dmaPos)
      (hmore : c.received.toNat < c.count.toNat) :
      ReadMove p c tick (none, p.resume { c with point := .copy })
  | drained
      (hpoint : c.point = .innerTest)
      (hstop : p.uart2RxDmaLastPos = c.dmaPos ∨
        c.count.toNat ≤ c.received.toNat) :
      ReadMove p c tick (none, p.resume { c with point := .timeout })
  | copied
      (hpoint : c.point = .copy) :
      ReadMove p c tick
        (none,
          p.resume
            { c with
              buf := Function.update c.buf c.received.toNat
                (p.uart2RxDmaBuf p.uart2RxDmaLastPos.toNat)
              received := c.received + 1
              point := .advance })
  | advanced
      (hpoint : c.point = .advance) :
      ReadMove p c tick
        (none,
          { p with
            uart2RxDmaLastPos := p.uart2RxDmaLastPos + 1
            call := some { c with point := .wrap } })
  | wrapped
      (hpoint : c.point = .wrap)
      (hend : uart2RxDmaBufSize ≤ p.uart2RxDmaLastPos.toNat) :
      ReadMove p c tick
        (none,
          { p with
            uart2RxDmaLastPos := 0
            call := some { c with point := .innerTest } })
  | inside
      (hpoint : c.point = .wrap)
      (hlt : p.uart2RxDmaLastPos.toNat < uart2RxDmaBufSize) :
      ReadMove p c tick (none, p.resume { c with point := .innerTest })
  | expired
      (hpoint : c.point = .timeout)
      (hlimit : 0 ≤ c.byteTimeoutMs)
      (helapsed : c.byteTimeoutMs.toUInt32 ≤ tick - c.start) :
      ReadMove p c tick (none, p.resume { c with point := .finish })
  | waiting
      (hpoint : c.point = .timeout)
      (hwait : 0 ≤ c.byteTimeoutMs →
        tick - c.start < c.byteTimeoutMs.toUInt32) :
      ReadMove p c tick (none, p.resume { c with point := .outerTest })
  | returned
      (hpoint : c.point = .finish) :
      ReadMove p c tick
        (some
          { count := c.count
            received := c.received
            bytes := window c.buf 0 c.received.toNat },
          { p with call := none })

/-- The sampled index is the number of bytes written, modulo the ring. -/
theorem sampled_index (p : SerialPort) :
    (UInt32.ofNat uart2RxDmaBufSize -
        halDmaGetCounter p).toUInt16.toNat =
      p.written % uart2RxDmaBufSize := by
  have hmod : p.written % 256 < 256 :=
    Nat.mod_lt _ (by omega)
  simp only [halDmaGetCounter, uart2RxDmaBufSize, UInt32.toNat_toUInt16,
    UInt32.toNat_sub, UInt32.toNat_ofNat']
  omega

/-- Every step of a call is one of the moves. -/
theorem readSerialStep_move
    (p : SerialPort) (c : ReadCall) (tick : UInt32) :
    ReadMove p c tick (readSerialStep p c tick) := by
  unfold readSerialStep
  cases hpoint : c.point with
  | outerTest =>
      simp only [UInt16.lt_iff_toNat_lt]
      split
      · exact ReadMove.enter hpoint ‹_›
      · exact ReadMove.leave hpoint (Nat.le_of_not_lt ‹_›)
  | sample =>
      exact ReadMove.sampled hpoint _ (sampled_index p)
  | innerTest =>
      simp only [UInt16.lt_iff_toNat_lt]
      split
      · rename_i hmore
        exact ReadMove.unread hpoint hmore.1 hmore.2
      · rename_i hstop
        refine ReadMove.drained hpoint ?_
        by_cases heq : p.uart2RxDmaLastPos = c.dmaPos
        · exact Or.inl heq
        · exact Or.inr (Nat.le_of_not_lt fun hlt => hstop ⟨heq, hlt⟩)
  | copy =>
      exact ReadMove.copied hpoint
  | advance =>
      exact ReadMove.advanced hpoint
  | wrap =>
      simp only
      split
      · exact ReadMove.wrapped hpoint ‹_›
      · exact ReadMove.inside hpoint (Nat.lt_of_not_le ‹_›)
  | timeout =>
      simp only
      split
      · rename_i hlimit
        split
        · exact ReadMove.expired hpoint hlimit ‹_›
        · rename_i hwait
          exact ReadMove.waiting hpoint
            (fun _ => UInt32.not_le.mp hwait)
      · rename_i hforever
        exact ReadMove.waiting hpoint (fun hlimit => absurd hlimit hforever)
  | finish =>
      exact ReadMove.returned hpoint

end Moves

section Observations

/-- The bytes that a reply hands to the caller. -/
def returnedBytes : Option ReadReturn → List UInt8
  | none => []
  | some r => r.bytes

/-- The bytes that the call in progress has stored so far. -/
def SerialPort.stored (p : SerialPort) : List UInt8 :=
  match p.call with
  | none => []
  | some c => window c.buf 0 c.received.toNat

/-- The port after a sequence of events from reset. -/
def portAfter (stream : ByteMem) (events : List SerialEvent) :
    SerialPort :=
  runState (serialStep stream) SerialPort.initial events

/-- What the calls that returned have handed to their callers, in order. -/
def returnedAfter (stream : ByteMem) (events : List SerialEvent) :
    List UInt8 :=
  (runReplies (serialStep stream) SerialPort.initial events).flatMap
    returnedBytes

/-- All bytes read so far, those of the call in progress included. -/
def readAfter (stream : ByteMem) (events : List SerialEvent) :
    List UInt8 :=
  returnedAfter stream events ++ (portAfter stream events).stored

theorem portAfter_snoc
    (stream : ByteMem) (events : List SerialEvent) (e : SerialEvent) :
    portAfter stream (events ++ [e]) =
        (serialStep stream (portAfter stream events) e).2 ∧
      returnedAfter stream (events ++ [e]) =
        returnedAfter stream events ++
          returnedBytes
            (serialStep stream (portAfter stream events) e).1 := by
  constructor
  · exact runState_append _ _ _ _
  · simp only [returnedAfter, runReplies_append, List.flatMap_append,
      runReplies_cons, runReplies_nil, List.flatMap_singleton]
    rfl

end Observations

end Port
end ModbusRtu
