import ModbusRtu.Port.AssemblyRefinement

/-!
# Whole sessions and what they leave in the buffer

A session is a head, data records and a tail. Its verdict does not depend on
what came before: it is acknowledged as a whole exactly when the head passes
its tests, no data record is larger than the chunk size, and the payload has
the announced length. This is the acceptance condition of the abstract
assembly, carried over by the refinement.

An acknowledged session leaves its payload at the start of the buffer and
every byte behind the announced length as it was. The second half is a frame
property of data records that holds for the refused ones too.
-/

namespace ModbusRtu
namespace Port

open Kernel

section Session

/-- A head record, data records and a tail record. -/
structure Session where
  head : FileRecord
  data : List FileRecord
  tail : FileRecord
  headKind : head.kind = .head
  dataKind : ∀ r ∈ data, r.kind = .data
  tailKind : tail.kind = .tail

/-- The records before the tail. -/
def Session.opening (S : Session) : List FileRecord :=
  S.head :: S.data

/-- All records of the session, in order. -/
def Session.records (S : Session) : List FileRecord :=
  S.opening ++ [S.tail]

/-- The announced length. -/
def Session.totalLen (S : Session) : Nat :=
  S.head.header.totalLen.toNat

/-- The bytes the data records carry. -/
def Session.payload (S : Session) : List UInt8 :=
  S.data.flatMap FileRecord.bytes

theorem acknowledged_head_iff
    (s : FileReceiver) {r : FileRecord}
    (hkind : r.kind = .head) :
    Acknowledged s r ↔ r.AnnouncesTransfer := by
  simp [acknowledged_iff, hkind]

theorem assemblyInput_head
    (S : Session)
    (hok : S.head.AnnouncesTransfer) :
    S.head.assemblyInput = .start S.totalLen := by
  simp [FileRecord.assemblyInput, S.headKind, hok, Session.totalLen]

theorem assemblyInput_data
    (S : Session) :
    S.data.map FileRecord.assemblyInput =
      (S.data.map FileRecord.bytes).map AssemblyInput.chunk := by
  rw [List.map_map]
  apply List.map_congr_left
  intro r hr
  simp [FileRecord.assemblyInput, S.dataKind r hr]

theorem assemblyInput_records
    (S : Session)
    (hok : S.head.AnnouncesTransfer) :
    S.records.map FileRecord.assemblyInput =
      sessionInputs S.totalLen (S.data.map FileRecord.bytes) := by
  have htail : S.tail.assemblyInput = .finish := by
    simp [FileRecord.assemblyInput, S.tailKind]
  simp only [Session.records, Session.opening, List.cons_append,
    List.map_cons, List.map_append, List.map_nil,
    assemblyInput_head S hok, htail, assemblyInput_data, sessionInputs]

theorem chunks_within_largest_iff (rs : List FileRecord) :
    (∀ xs ∈ rs.map FileRecord.bytes,
      xs.length ≤ receiverLimits.largest) ↔
    ∀ r ∈ rs, r.count.toNat ≤ 120 := by
  simp only [List.forall_mem_map, length_bytes, receiverLimits,
    mobdusPayloadChunkSize]
  constructor
  · intro h r hr
    have hlen := h r hr
    omega
  · intro h r hr
    have hlen := h r hr
    omega

/-- A session is acknowledged from every state under the same condition. -/
theorem session_acknowledged_iff
    (s : FileReceiver) (S : Session) :
    AllAcknowledged s S.records ↔
      S.head.AnnouncesTransfer ∧
        (∀ r ∈ S.data, r.count.toNat ≤ 120) ∧
        S.payload.length = S.totalLen := by
  have hsplit :
      AllAcknowledged s S.records ↔
        Acknowledged s S.head ∧
          AllAcknowledged (serverWriteFileRecord s S.head).2
            (S.data ++ [S.tail]) := by
    rfl
  rw [hsplit, acknowledged_head_iff s S.headKind]
  by_cases hok : S.head.AnnouncesTransfer
  · have hassembly :=
      @session_accepted_iff UInt8 receiverLimits none S.totalLen
        (S.data.map FileRecord.bytes)
    rw [← assemblyInput_records S hok, Session.records,
      Session.opening, List.cons_append, List.map_cons,
      assemblyAccepts_cons, assemblyInput_head S hok,
      assemblyStep_start none hok.2.2, chunks_within_largest_iff,
      ← List.flatMap_def] at hassembly
    rw [step_head_accepted s S.headKind hok,
      allAcknowledged_iff_assembly (assembles_of_headAccepted s S.head)]
    constructor
    · rintro ⟨_, hacc⟩
      obtain ⟨_, hsmall, hsum⟩ := hassembly.mp ⟨rfl, hacc⟩
      exact ⟨hok, hsmall, hsum⟩
    · rintro ⟨_, hsmall, hsum⟩
      obtain ⟨_, hacc⟩ := hassembly.mpr ⟨hok.2.2, hsmall, hsum⟩
      exact ⟨hok, hacc⟩
  · simp [hok]

end Session

section SessionRun

/--
The transfer ends at or before e, and since the state base neither a byte from
e on nor the texts handed on have changed.
-/
structure WritesBelow (base : FileReceiver) (e : Nat)
    (s : FileReceiver) : Prop where
  within : ∀ ptr, s.ctx.recvBufPtr = some ptr →
    ptr + s.ctx.recvBufRest.toNat ≤ e
  behind : ∀ k, e ≤ k → s.mem k = base.mem k
  quiet : s.printed = base.printed

/-- Data records, refused ones included, stay below the end of a transfer. -/
theorem writesBelow_step
    {base : FileReceiver} {e : Nat}
    (s : FileReceiver) (r : FileRecord)
    (hbelow : WritesBelow base e s)
    (hdata : r.kind = .data) :
    WritesBelow base e (serverWriteFileRecord s r).2 := by
  have hout := serverWriteFileRecord_outcome s r
  generalize serverWriteFileRecord s r = out at hout ⊢
  cases hout with
  | dataClosed | dataTooLong =>
      exact hbelow
  | dataStored hkind ptr rest hptr hlen hfit hrest =>
      have hend := hbelow.within ptr hptr
      refine ⟨?_, ?_, hbelow.quiet⟩
      · intro ptr' hptr'
        have hmoved := Option.some.inj hptr'
        simp only
        omega
      · intro k hk
        rw [← hbelow.behind k hk]
        apply storePayload_outside
        rw [length_payload]
        omega
  | dataCut hkind ptr rest hptr hlen hcut hrest =>
      have hend := hbelow.within ptr hptr
      refine ⟨?_, ?_, hbelow.quiet⟩
      · intro ptr' hptr'
        have hkept := Option.some.inj hptr'
        simp only
        omega
      · intro k hk
        rw [← hbelow.behind k hk]
        apply storePayload_outside
        rw [List.length_take, length_payload]
        omega
  | outOfRange hk | headRejected hk | headAccepted hk
  | tailDelivered hk | tailIncomplete hk | tailWithoutBuffer hk
  | tailClosed hk =>
      simp [hdata] at hk

/-- What every byte behind the announced length is after head and data. -/
theorem writesBelow_opening
    (s : FileReceiver) (S : Session)
    (hok : S.head.AnnouncesTransfer) :
    WritesBelow s S.totalLen
      (runState serverWriteFileRecord s S.opening) := by
  rw [Session.opening, runState_cons,
    step_head_accepted s S.headKind hok]
  apply invariant_run
    (G := fun _ r => FileRecord.kind r = .data) writesBelow_step
  · refine ⟨?_, fun _ _ => rfl, rfl⟩
    intro ptr hptr
    have hzero : 0 = ptr := Option.some.inj hptr
    simp only [openedCtx, Session.totalLen]
    omega
  · exact stepsMeet_of_forall_mem _ _ S.dataKind

/-- The state in which the tail of an acknowledged session arrives. -/
theorem opening_spec
    {s : FileReceiver} {S : Session}
    (hack : AllAcknowledged s S.records) :
    (runState serverWriteFileRecord s S.opening).ctx =
        ⟨some 0, some S.totalLen, 0⟩ ∧
      window (runState serverWriteFileRecord s S.opening).mem
        0 S.totalLen = S.payload := by
  obtain ⟨hok, hsmall, hsum⟩ := (session_acknowledged_iff s S).mp hack
  have hdata :
      AllAcknowledged { s with ctx := openedCtx S.head } S.data := by
    have hopening := ((stepsMeet_append _ _ _ _ _).mp hack).1
    rw [Session.opening, stepsMeet_cons,
      step_head_accepted s S.headKind hok] at hopening
    exact hopening.2
  have hstart := assembles_of_headAccepted s S.head
  have hrel := assembles_of_allAcknowledged hstart hdata
  have hacc := (allAcknowledged_iff_assembly hstart S.data).mp hdata
  rw [assemblyInput_data] at hrel hacc
  rw [chunks_state _ _ _ hacc, List.nil_append,
    ← List.flatMap_def] at hrel
  rw [Session.opening, runState_cons,
    step_head_accepted s S.headKind hok]
  generalize runState serverWriteFileRecord _ S.data = t at hrel ⊢
  cases hrel with
  | assembling total got hptr hbuf hrest hcontent =>
      have hlength : (S.data.flatMap FileRecord.bytes).length =
          S.totalLen := hsum
      have hdone : t.ctx.recvBufRest = 0 := by
        refine UInt32.toNat_inj.mp ?_
        rw [hlength, Session.totalLen] at hrest
        simpa using hrest
      rw [hlength] at hptr hcontent
      refine ⟨?_, hcontent⟩
      rw [← hptr, ← hdone]
      exact congrArg
        (fun b => (⟨b, t.ctx.recvBufPtr, t.ctx.recvBufRest⟩ :
          ModbusFileSendDataCtx)) hbuf

/-- A tail with nothing remaining clears the context and hands one text on. -/
theorem step_tail_delivered
    {s : FileReceiver} {t : FileRecord} {o : Nat}
    (hkind : t.kind = .tail)
    (hctx : s.ctx = ⟨some 0, some o, 0⟩) :
    serverWriteFileRecord s t =
      (.errorNone,
        { s with
          ctx := ⟨none, none, 0⟩
          printed := s.printed ++
            [cString s.mem 0 modbusFileSendDataRecvBufSize] }) := by
  rw [serverWriteFileRecord_route, hkind]
  simp [modbusFileSendProcessTailChunk, hctx]

/--
An acknowledged session closes the context, leaves its payload at the start of
the buffer and everything behind it alone, and hands on one text.
-/
theorem session_run_spec
    {s : FileReceiver} {S : Session}
    (hack : AllAcknowledged s S.records) :
    ∃ m : ByteMem,
      runState serverWriteFileRecord s S.records =
        { ctx := ⟨none, none, 0⟩
          mem := m
          printed := s.printed ++
            [cString m 0 modbusFileSendDataRecvBufSize] } ∧
      m = (runState serverWriteFileRecord s S.opening).mem ∧
      window m 0 S.totalLen = S.payload ∧
      ∀ k, S.totalLen ≤ k → m k = s.mem k := by
  obtain ⟨hctx, hcontent⟩ := opening_spec hack
  have hbelow :=
    writesBelow_opening s S ((session_acknowledged_iff s S).mp hack).1
  refine ⟨_, ?_, rfl, hcontent, hbelow.behind⟩
  rw [Session.records, runState_append, runState_cons, runState_nil,
    step_tail_delivered S.tailKind hctx, ← hbelow.quiet]

end SessionRun

section Reassembly

/-- A data chunk: at most 120 registers under a data record number. -/
structure DataChunk where
  fileNumber : UInt16
  recordNumber : UInt16
  registers : List UInt16
  routed : recordNumber.toNat < mobdusFileSendHeadRecNum
  small : registers.length ≤ 120

/-- The record that carries a data chunk. -/
def DataChunk.record (c : DataChunk) : FileRecord :=
  FileRecord.ofRegisters c.fileNumber c.recordNumber c.registers

/-- All registers of a list of chunks, in order. -/
def allRegisters (chunks : List DataChunk) : List UInt16 :=
  chunks.flatMap DataChunk.registers

theorem DataChunk.record_kind (c : DataChunk) :
    c.record.kind = .data := by
  rw [kind_eq_data_iff]
  exact c.routed

theorem DataChunk.record_count (c : DataChunk) :
    c.record.count.toNat = c.registers.length := by
  have hsmall := c.small
  simp only [DataChunk.record, FileRecord.ofRegisters,
    UInt16.toNat_ofNat']
  omega

theorem DataChunk.record_bytes (c : DataChunk) :
    c.record.bytes = wireString c.registers := by
  have hsmall := c.small
  rw [FileRecord.bytes, DataChunk.record,
    payload_ofRegisters _ _ (by omega)]

theorem flatMap_record_bytes (chunks : List DataChunk) :
    (chunks.map DataChunk.record).flatMap FileRecord.bytes =
      wireString (allRegisters chunks) := by
  induction chunks with
  | nil =>
      rfl
  | cons c chunks ih =>
      rw [List.map_cons, List.flatMap_cons, ih, c.record_bytes,
        ← wireString_append]
      rfl

/-- The session that transfers the registers of the given chunks. -/
def transferSession
    (fileNumber : UInt16) (nChunks : Nat)
    (chunks : List DataChunk) (tail : FileRecord)
    (htail : tail.kind = .tail) : Session where
  head :=
    announceRecord fileNumber (2 * (allRegisters chunks).length) nChunks
  data := chunks.map DataChunk.record
  tail := tail
  headKind := announceRecord_kind _ _ _
  dataKind := by
    simp [DataChunk.record_kind]
  tailKind := htail

section Transfer

variable {fileNumber : UInt16} {nChunks : Nat}
variable {chunks : List DataChunk}
variable {tail : FileRecord} {htail : tail.kind = .tail}

theorem transferSession_header
    (hchunks : nChunks ≤ mobdusFileSendHeadRecNum)
    (htotal : 2 * (allRegisters chunks).length ≤
      modbusFileSendDataRecvBufSize) :
    (transferSession fileNumber nChunks chunks tail htail).totalLen =
        2 * (allRegisters chunks).length ∧
      (transferSession fileNumber nChunks chunks tail
        htail).head.AnnouncesTransfer := by
  have htotal32 : 2 * (allRegisters chunks).length < 4294967296 := by
    exact Nat.lt_of_le_of_lt htotal (by decide)
  have hchunks32 : nChunks < 4294967296 := by
    exact Nat.lt_of_le_of_lt hchunks (by decide)
  constructor
  · exact (announceRecord_header fileNumber htotal32 hchunks32).1
  · exact (announceRecord_announces_iff fileNumber htotal32
      hchunks32).mpr ⟨hchunks, htotal⟩

@[simp] theorem transferSession_payload :
    (transferSession fileNumber nChunks chunks tail htail).payload =
      wireString (allRegisters chunks) := by
  exact flatMap_record_bytes chunks

/-- The receiver accepts every transfer that fits, from every state. -/
theorem transferSession_acknowledged
    (s : FileReceiver)
    (hchunks : nChunks ≤ mobdusFileSendHeadRecNum)
    (htotal : 2 * (allRegisters chunks).length ≤
      modbusFileSendDataRecvBufSize) :
    AllAcknowledged s
      (transferSession fileNumber nChunks chunks tail htail).records := by
  obtain ⟨hlen, hannounce⟩ :=
    @transferSession_header fileNumber nChunks chunks tail htail
      hchunks htotal
  rw [session_acknowledged_iff]
  refine ⟨hannounce, ?_, ?_⟩
  · simp only [transferSession, List.forall_mem_map,
      DataChunk.record_count]
    intro c _
    exact c.small
  · rw [transferSession_payload, length_wireString, hlen]

end Transfer

/--
Reassembly for any chunking and any history: every call is answered without an
error, and when the tail arrives the buffer starts with the registers of all
chunks in wire order while the bytes behind them are those before the head.
-/
theorem reassembly_any_history
    (history : List FileRecord)
    (fileNumber : UInt16) (nChunks : Nat)
    (chunks : List DataChunk) (tail : FileRecord)
    (htail : tail.kind = .tail)
    (hchunks : nChunks ≤ mobdusFileSendHeadRecNum)
    (htotal : 2 * (allRegisters chunks).length ≤
      modbusFileSendDataRecvBufSize) :
    (∀ e ∈ runReplies serverWriteFileRecord (receiverAfter history)
        (transferSession fileNumber nChunks chunks tail htail).records,
      e = .errorNone) ∧
    window (receiverAfter (history ++
        (transferSession fileNumber nChunks chunks tail
          htail).opening)).mem
        0 (2 * (allRegisters chunks).length) =
      wireString (allRegisters chunks) ∧
    ∀ k, 2 * (allRegisters chunks).length ≤ k →
      (receiverAfter (history ++
          (transferSession fileNumber nChunks chunks tail
            htail).opening)).mem k =
        (receiverAfter history).mem k := by
  have hack :=
    @transferSession_acknowledged fileNumber nChunks chunks tail htail
      (receiverAfter history) hchunks htotal
  obtain ⟨hlen, _⟩ :=
    @transferSession_header fileNumber nChunks chunks tail htail
      hchunks htotal
  obtain ⟨m, _, hm, hcontent, hbehind⟩ := session_run_spec hack
  rw [receiverAfter_append, ← hm, ← hlen, hcontent,
    transferSession_payload]
  exact ⟨(allAcknowledged_iff_replies _ _).mp hack, rfl, hbehind⟩

theorem recordZero_routed :
    (0 : UInt16).toNat < mobdusFileSendHeadRecNum := by
  decide

theorem twoRegisters_small :
    [(0x4142 : UInt16), 0x4344].length ≤ 120 := by
  decide

theorem tailRecordTen_kind : (tailRecord 10).kind = .tail := by
  exact tailRecord_kind 10

/-- Two chunks, one of them empty, with unordered record numbers. -/
def unorderedChunks : List DataChunk :=
  [⟨10, 5, [0x4142, 0x4344], by decide, twoRegisters_small⟩,
    ⟨11, 0, [], recordZero_routed, by decide⟩]

/-- A transfer of these chunks after an abandoned one. -/
theorem reassembly_after_abandoned :
    (∀ e ∈ runReplies serverWriteFileRecord
        (receiverAfter [announceRecord 3 8 2])
        (transferSession 10 7 unorderedChunks
          (tailRecord 10) (tailRecord_kind 10)).records,
      e = .errorNone) ∧
    window (receiverAfter ([announceRecord 3 8 2] ++
        (transferSession 10 7 unorderedChunks
          (tailRecord 10) (tailRecord_kind 10)).opening)).mem 0 4 =
      [0x41, 0x42, 0x43, 0x44] := by
  obtain ⟨hreplies, hcontent, _⟩ :=
    reassembly_any_history [announceRecord 3 8 2] 10 7 unorderedChunks
      (tailRecord 10) (tailRecord_kind 10) (by decide) (by decide)
  exact ⟨hreplies, hcontent⟩

end Reassembly

end Port
end ModbusRtu
