import ModbusRtu.Port.FileSendModel

/-!
# What one record can do to the receiver

One inversion theorem for server_write_file_record. Every call has exactly one
of eleven outcomes, and each outcome names its guard, its reply and its next
state. All later invariants are case analyses on StepOutcome; none of them
unfolds a handler again.

The register loop of the data handler is the only part that needs an
induction. It stores as many registers as fit into the remaining bytes, counts
them down, and fails exactly when they do not all fit. A failing call has
therefore stored and counted some registers, while its write pointer stays.
-/

namespace ModbusRtu
namespace Port

open Kernel

section StorePayload

/-- Memory after the registers xs are stored byte-swapped from address a on. -/
def storePayload (m : ByteMem) (a : Nat) (xs : List UInt16) : ByteMem :=
  storeAll m (consecutiveStores a (xs.map swap16IfLe))

theorem storePayload_outside
    (m : ByteMem) (a : Nat) (xs : List UInt16) {k : Nat}
    (hk : k < a ∨ a + 2 * xs.length ≤ k) :
    storePayload m a xs k = m k := by
  rw [storePayload]
  apply storeAll_consecutive_outside
  simpa using hk

/-- Stored registers read back as their wire bytes. -/
theorem window_storePayload
    (m : ByteMem) (a : Nat) (xs : List UInt16) :
    window (storePayload m a xs) a (2 * xs.length) = wireString xs := by
  have h := window_storeAll_consecutive m a (xs.map swap16IfLe)
  rw [List.length_map, flatMap_swap16IfLe] at h
  exact h

/-- A store from a on keeps every window that ends at or before a. -/
theorem window_storePayload_before
    (m : ByteMem) (xs : List UInt16) {a b n : Nat}
    (hle : b + n ≤ a) :
    window (storePayload m a xs) b n = window m b n := by
  apply window_congr
  intro k _ hk
  exact storePayload_outside m a xs (Or.inl (by omega))

/-- A store right behind a window extends it by the stored bytes. -/
theorem window_storePayload_extend
    (m : ByteMem) (a : Nat) (xs : List UInt16) :
    window (storePayload m a xs) 0 (a + 2 * xs.length) =
      window m 0 a ++ wireString xs := by
  rw [window_add, Nat.zero_add, window_storePayload,
    window_storePayload_before m xs (by omega)]

end StorePayload

section DataLoop

/-- Number of registers the loop stores before the remaining bytes run out. -/
def fitting (n : Nat) (rest : UInt32) : Nat :=
  min n (rest.toNat / 2)

theorem fitting_of_le
    {n : Nat} {rest : UInt32} (h : 2 * n ≤ rest.toNat) :
    fitting n rest = n := by
  simp only [fitting]
  omega

theorem fitting_of_lt
    {n : Nat} {rest : UInt32} (h : rest.toNat < 2 * n) :
    fitting n rest = rest.toNat / 2 := by
  simp only [fitting]
  omega

/-- The loop never counts below zero and never reads past its registers. -/
theorem fitting_le (n : Nat) (rest : UInt32) :
    fitting n rest ≤ n ∧ 2 * fitting n rest ≤ rest.toNat := by
  simp only [fitting]
  omega

theorem rest_sub_two_toNat
    {rest : UInt32} (h : ¬ rest < 2) :
    (rest - 2).toNat = rest.toNat - 2 ∧ 2 ≤ rest.toNat := by
  have h2 : 2 ≤ rest.toNat := by
    rw [UInt32.lt_iff_toNat_lt] at h
    have e : UInt32.toNat 2 = 2 := by
      rfl
    omega
  refine ⟨?_, h2⟩
  rw [UInt32.toNat_sub_of_le]
  · rfl
  · rw [UInt32.le_iff_toNat_le]
    exact h2

/-- What the register loop stores, counts down and answers. -/
theorem dataChunkLoop_spec
    (ptr : Nat) (registers : Nat → UInt16) (i n : Nat) (rest : UInt32) :
    (dataChunkLoop ptr registers i n rest).stores =
        consecutiveStores (ptr + 2 * i)
          (((List.range' i (fitting n rest)).map registers).map
            swap16IfLe) ∧
      (dataChunkLoop ptr registers i n rest).rest.toNat =
        rest.toNat - 2 * fitting n rest ∧
      (dataChunkLoop ptr registers i n rest).status =
        (if 2 * n ≤ rest.toNat then .errorNone else .errorInvalidRequest) := by
  induction n generalizing i rest with
  | zero =>
      simp [dataChunkLoop, fitting, consecutiveStores]
  | succ n ih =>
      by_cases hlt : rest < 2
      · have hnat : rest.toNat < 2 := by
          rw [UInt32.lt_iff_toNat_lt] at hlt
          exact hlt
        have hfit : fitting (n + 1) rest = 0 := by
          rw [fitting_of_lt (by omega), Nat.div_eq_of_lt hnat]
        have hno : ¬ 2 * (n + 1) ≤ rest.toNat := by
          omega
        simp [dataChunkLoop, hlt, hfit, hno, consecutiveStores]
      · obtain ⟨hsub, hge⟩ := rest_sub_two_toNat hlt
        have hfit : fitting (n + 1) rest = fitting n (rest - 2) + 1 := by
          simp only [fitting]
          omega
        obtain ⟨hstores, hrest, hstatus⟩ := ih (i + 1) (rest - 2)
        have haddr : ptr + 2 * i + 2 = ptr + 2 * (i + 1) := by
          omega
        refine ⟨?_, ?_, ?_⟩
        · simp only [dataChunkLoop, hlt, if_false, hstores, hfit,
            List.range'_succ, List.map_cons, consecutiveStores, haddr]
        · simp only [dataChunkLoop, hlt, if_false, hrest, hfit, hsub]
          omega
        · simp only [dataChunkLoop, hlt, if_false, hstatus, hsub]
          congr 1
          simp only [eq_iff_iff]
          omega

end DataLoop

section Outcome

/-- The head tests all pass: size, number of chunks and total length. -/
def FileRecord.AnnouncesTransfer (r : FileRecord) : Prop :=
  r.count.toNat = 4 ∧
    r.header.nChunks.toNat ≤ mobdusFileSendHeadRecNum ∧
    r.header.totalLen.toNat ≤ modbusFileSendDataRecvBufSize

instance (r : FileRecord) : Decidable r.AnnouncesTransfer := by
  unfold FileRecord.AnnouncesTransfer
  exact inferInstance

/-- The context after an accepted head. -/
def openedCtx (r : FileRecord) : ModbusFileSendDataCtx where
  recvBuf := modbusFileSendDataRecvBuf
  recvBufPtr := modbusFileSendDataRecvBuf
  recvBufRest := r.header.totalLen

/-- Outcomes of one call: guard, reply and next state. -/
inductive StepOutcome (s : FileReceiver) (r : FileRecord) :
    NmbsError × FileReceiver → Prop
  | outOfRange
      (hkind : r.kind = .outOfRange) :
      StepOutcome s r (.errorInvalidRequest, s)
  | headRejected
      (hkind : r.kind = .head)
      (hbad : ¬ r.AnnouncesTransfer) :
      StepOutcome s r (.errorInvalidRequest, s)
  | headAccepted
      (hkind : r.kind = .head)
      (hok : r.AnnouncesTransfer) :
      StepOutcome s r (.errorNone, { s with ctx := openedCtx r })
  | tailDelivered
      (hkind : r.kind = .tail)
      (ptr buf : Nat)
      (hptr : s.ctx.recvBufPtr = some ptr)
      (hrest : s.ctx.recvBufRest = 0)
      (hbuf : s.ctx.recvBuf = some buf) :
      StepOutcome s r
        (.errorNone,
          { s with
            ctx := ⟨none, none, 0⟩
            printed := s.printed ++
              [cString s.mem buf (modbusFileSendDataRecvBufSize - buf)] })
  | tailIncomplete
      (hkind : r.kind = .tail)
      (hptr : s.ctx.recvBufPtr ≠ none)
      (hrest : s.ctx.recvBufRest ≠ 0) :
      StepOutcome s r
        (.errorInvalidRequest,
          { s with ctx := ⟨s.ctx.recvBuf, none, 0⟩ })
  | tailWithoutBuffer
      (hkind : r.kind = .tail)
      (hptr : s.ctx.recvBufPtr ≠ none)
      (hrest : s.ctx.recvBufRest = 0)
      (hbuf : s.ctx.recvBuf = none) :
      StepOutcome s r
        (.errorInvalidRequest,
          { s with ctx := ⟨none, none, 0⟩ })
  | tailClosed
      (hkind : r.kind = .tail)
      (hptr : s.ctx.recvBufPtr = none) :
      StepOutcome s r
        (.errorInvalidRequest,
          { s with ctx := ⟨s.ctx.recvBuf, none, 0⟩ })
  | dataClosed
      (hkind : r.kind = .data)
      (hptr : s.ctx.recvBufPtr = none) :
      StepOutcome s r (.errorInvalidRequest, s)
  | dataTooLong
      (hkind : r.kind = .data)
      (hlen : 120 < r.count.toNat) :
      StepOutcome s r (.errorInvalidRequest, s)
  | dataStored
      (hkind : r.kind = .data)
      (ptr : Nat) (rest : UInt32)
      (hptr : s.ctx.recvBufPtr = some ptr)
      (hlen : r.count.toNat ≤ 120)
      (hfit : 2 * r.count.toNat ≤ s.ctx.recvBufRest.toNat)
      (hrest : rest.toNat = s.ctx.recvBufRest.toNat - 2 * r.count.toNat) :
      StepOutcome s r
        (.errorNone,
          { s with
            ctx := ⟨s.ctx.recvBuf, some (ptr + 2 * r.count.toNat), rest⟩
            mem := storePayload s.mem ptr r.payload })
  | dataCut
      (hkind : r.kind = .data)
      (ptr : Nat) (rest : UInt32)
      (hptr : s.ctx.recvBufPtr = some ptr)
      (hlen : r.count.toNat ≤ 120)
      (hcut : s.ctx.recvBufRest.toNat < 2 * r.count.toNat)
      (hrest : rest.toNat = s.ctx.recvBufRest.toNat % 2) :
      StepOutcome s r
        (.errorInvalidRequest,
          { s with
            ctx := ⟨s.ctx.recvBuf, some ptr, rest⟩
            mem := storePayload s.mem ptr
              (r.payload.take (s.ctx.recvBufRest.toNat / 2)) })

theorem headChunk_accepted
    (s : FileReceiver) {r : FileRecord}
    (hok : r.AnnouncesTransfer) :
    modbusFileSendProcessHeadChunk s r.registers r.count =
      (.errorNone, { s with ctx := openedCtx r }) := by
  obtain ⟨hcount, hchunks, htotal⟩ := hok
  simp only [FileRecord.header] at hchunks htotal
  simp only [modbusFileSendProcessHeadChunk, openedCtx,
    FileRecord.header]
  rw [if_neg (by simp [hcount, sizeofModbusFileSendHeader]),
    if_neg (by omega), if_neg (by omega)]

theorem headChunk_rejected
    (s : FileReceiver) {r : FileRecord}
    (hbad : ¬ r.AnnouncesTransfer) :
    modbusFileSendProcessHeadChunk s r.registers r.count =
      (.errorInvalidRequest, s) := by
  simp only [FileRecord.AnnouncesTransfer, FileRecord.header] at hbad
  simp only [modbusFileSendProcessHeadChunk]
  split
  · rfl
  · rename_i hcount
    simp only [sizeofModbusFileSendHeader, not_not] at hcount
    split
    · rfl
    · rename_i hchunks
      split
      · rfl
      · rename_i htotal
        exact absurd ⟨by omega, by omega, by omega⟩ hbad

theorem headChunk_outcome
    (s : FileReceiver) {r : FileRecord}
    (hkind : r.kind = .head) :
    StepOutcome s r
      (modbusFileSendProcessHeadChunk s r.registers r.count) := by
  by_cases hok : r.AnnouncesTransfer
  · rw [headChunk_accepted s hok]
    exact StepOutcome.headAccepted hkind hok
  · rw [headChunk_rejected s hok]
    exact StepOutcome.headRejected hkind hok

theorem tailChunk_outcome
    (s : FileReceiver) {r : FileRecord}
    (hkind : r.kind = .tail) :
    StepOutcome s r (modbusFileSendProcessTailChunk s) := by
  unfold modbusFileSendProcessTailChunk
  cases hptr : s.ctx.recvBufPtr with
  | none =>
      simpa [hptr] using StepOutcome.tailClosed hkind hptr
  | some ptr =>
      have hopen : s.ctx.recvBufPtr ≠ none := by
        simp [hptr]
      by_cases hrest : s.ctx.recvBufRest = 0
      · cases hbuf : s.ctx.recvBuf with
        | none =>
            simpa [hrest, hbuf] using
              StepOutcome.tailWithoutBuffer hkind hopen hrest hbuf
        | some buf =>
            simpa [hrest, hbuf] using
              StepOutcome.tailDelivered hkind ptr buf hptr hrest hbuf
      · simpa [hrest] using
          StepOutcome.tailIncomplete hkind hopen hrest

theorem payload_eq_map_range'
    (r : FileRecord) {k : Nat}
    (hk : k ≤ r.count.toNat) :
    (List.range' 0 k).map r.registers = r.payload.take k := by
  rw [FileRecord.payload, ← List.map_take, List.take_range, Nat.min_eq_left hk,
    List.range_eq_range']

theorem dataChunk_outcome
    (s : FileReceiver) {r : FileRecord}
    (hkind : r.kind = .data) :
    StepOutcome s r
      (modbusFileSendProcessDataChunk s r.registers r.count) := by
  unfold modbusFileSendProcessDataChunk
  cases hptr : s.ctx.recvBufPtr with
  | none =>
      exact StepOutcome.dataClosed hkind hptr
  | some ptr =>
      by_cases hlong : r.count.toNat * 2 > mobdusPayloadChunkSize
      · have hlen : 120 < r.count.toNat := by
          simp only [mobdusPayloadChunkSize] at hlong
          omega
        simpa only [if_pos hlong] using
          StepOutcome.dataTooLong hkind hlen
      · have hlen : r.count.toNat ≤ 120 := by
          simp only [mobdusPayloadChunkSize] at hlong
          omega
        obtain ⟨hstores, hrest, hstatus⟩ :=
          dataChunkLoop_spec ptr r.registers 0 r.count.toNat
            s.ctx.recvBufRest
        rw [payload_eq_map_range' r (fitting_le _ _).1] at hstores
        simp only [if_neg hlong, hstores, hstatus, Nat.mul_zero,
          Nat.add_zero]
        by_cases hfit :
            2 * r.count.toNat ≤ s.ctx.recvBufRest.toNat
        · rw [fitting_of_le hfit] at hrest ⊢
          have hpayload : r.payload.take r.count.toNat = r.payload := by
            rw [← length_payload, List.take_length]
          simpa only [if_pos hfit, if_true, hpayload, storePayload,
            Nat.mul_comm r.count.toNat 2] using
            StepOutcome.dataStored hkind ptr _ hptr hlen hfit hrest
        · rw [fitting_of_lt (Nat.lt_of_not_le hfit)] at hrest ⊢
          have hcut := StepOutcome.dataCut hkind ptr _ hptr hlen
            (Nat.lt_of_not_le hfit)
            (show _ = s.ctx.recvBufRest.toNat % 2 by
              rw [hrest]
              omega)
          simpa [hfit, storePayload, hptr] using hcut

/-- The handler a record is routed to. -/
theorem serverWriteFileRecord_route
    (s : FileReceiver) (r : FileRecord) :
    serverWriteFileRecord s r =
      match r.kind with
      | .head => modbusFileSendProcessHeadChunk s r.registers r.count
      | .tail => modbusFileSendProcessTailChunk s
      | .data => modbusFileSendProcessDataChunk s r.registers r.count
      | .outOfRange => (.errorInvalidRequest, s) := by
  unfold serverWriteFileRecord FileRecord.kind
  split
  · rfl
  · split
    · rfl
    · split
      · rfl
      · rfl

theorem step_head_accepted
    (s : FileReceiver) {r : FileRecord}
    (hkind : r.kind = .head)
    (hok : r.AnnouncesTransfer) :
    serverWriteFileRecord s r =
      (.errorNone, { s with ctx := openedCtx r }) := by
  rw [serverWriteFileRecord_route, hkind]
  exact headChunk_accepted s hok

theorem step_head_rejected
    (s : FileReceiver) {r : FileRecord}
    (hkind : r.kind = .head)
    (hbad : ¬ r.AnnouncesTransfer) :
    serverWriteFileRecord s r = (.errorInvalidRequest, s) := by
  rw [serverWriteFileRecord_route, hkind]
  exact headChunk_rejected s hbad

/-- Every call has one of the outcomes. -/
theorem serverWriteFileRecord_outcome
    (s : FileReceiver) (r : FileRecord) :
    StepOutcome s r (serverWriteFileRecord s r) := by
  rw [serverWriteFileRecord_route]
  cases hkind : r.kind with
  | head =>
      exact headChunk_outcome s hkind
  | tail =>
      exact tailChunk_outcome s hkind
  | data =>
      exact dataChunk_outcome s hkind
  | outOfRange =>
      exact StepOutcome.outOfRange hkind

end Outcome

section SessionRecords

/-- The head record that announces a length and a number of chunks. -/
def announceRecord
    (fileNumber : UInt16) (totalLen nChunks : Nat) : FileRecord :=
  FileRecord.ofRegisters fileNumber 9998
    (wireHalfwords (headerBytes totalLen nChunks))

/-- The tail record, which carries no registers. -/
def tailRecord (fileNumber : UInt16) : FileRecord :=
  FileRecord.ofRegisters fileNumber 9999 []

@[simp] theorem announceRecord_kind
    (fileNumber : UInt16) (totalLen nChunks : Nat) :
    (announceRecord fileNumber totalLen nChunks).kind = .head := by
  rfl

@[simp] theorem tailRecord_kind (fileNumber : UInt16) :
    (tailRecord fileNumber).kind = .tail := by
  rfl

/-- Every record number below the head number is routed to the data handler. -/
theorem kind_eq_data_iff (r : FileRecord) :
    r.kind = .data ↔ r.recordNumber.toNat < mobdusFileSendHeadRecNum := by
  unfold FileRecord.kind mobdusFileSendTailRecNum mobdusFileSendHeadRecNum
  split
  · simp only [reduceCtorEq, false_iff]
    omega
  · split
    · simp only [reduceCtorEq, false_iff]
      omega
    · split
      · simp only [reduceCtorEq, false_iff]
        omega
      · simp only [true_iff]
        omega

/-- The receiver reads the two announced numbers. -/
theorem announceRecord_header
    (fileNumber : UInt16) {totalLen nChunks : Nat}
    (ht : totalLen < 4294967296)
    (hn : nChunks < 4294967296) :
    (announceRecord fileNumber totalLen nChunks).header.totalLen.toNat =
        totalLen ∧
      (announceRecord fileNumber totalLen nChunks).header.nChunks.toNat =
        nChunks := by
  exact headerOverlay_headerBytes ht hn (fun _ _ => rfl)

/-- The head tests on an announced transfer are the two size bounds. -/
theorem announceRecord_announces_iff
    (fileNumber : UInt16) {totalLen nChunks : Nat}
    (ht : totalLen < 4294967296)
    (hn : nChunks < 4294967296) :
    (announceRecord fileNumber totalLen nChunks).AnnouncesTransfer ↔
      nChunks ≤ mobdusFileSendHeadRecNum ∧
        totalLen ≤ modbusFileSendDataRecvBufSize := by
  obtain ⟨htotal, hchunks⟩ := announceRecord_header fileNumber ht hn
  have hcount :
      (announceRecord fileNumber totalLen nChunks).count.toNat = 4 := by
    rfl
  rw [FileRecord.AnnouncesTransfer, htotal, hchunks]
  simp [hcount]

end SessionRecords

end Port
end ModbusRtu
