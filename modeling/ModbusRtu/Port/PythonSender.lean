import ModbusRtu.Port.Reassembly

/-!
# The sender of the test script and its agreement with the receiver

read_file_and_prep_data_list cuts a file into 240-byte slices and wraps them
in a head record and a tail record; send_data_chunks_via_modbus feeds the
records to the receiver until the first error. Both may raise instead.

What carries the bytes of a record to the callback as registers is not part of
the repository. A RecordCarrier is any such carrier that decodes a record with
an even number of bytes as big-endian registers. Nothing is assumed of a
record with an odd number of bytes: dropping its last byte and padding it are
two carriers among others.

Sender and receiver agree on a file exactly when its length is even or too
large for the buffer. The receiver counts in registers, so a transfer of an odd
announced length never completes, whatever the carrier does.
-/

namespace ModbusRtu
namespace Port

open Kernel

section Sender

/-- ChunkList: record numbers with their bytes. -/
abbrev ChunkList := List (Nat × List UInt8)

/-- What the sender may raise. -/
inductive SenderError
  | valueError
  | structError
deriving DecidableEq

/-- struct.pack with the format of two little-endian 32-bit numbers. -/
def structPackII (a b : Nat) : Except SenderError (List UInt8) :=
  if a < 4294967296 ∧ b < 4294967296 then
    .ok (headerBytes a b)
  else
    .error .structError

/-- read_file_and_prep_data_list on the bytes of the file -/
def readFileAndPrepDataList
    (data : List UInt8) : Except SenderError ChunkList :=
  let totalLen := data.length
  let data := slices mobdusPayloadChunkSize data
  let nChunks := data.length
  if data.length > mobdusFileSendHeadRecNum then
    .error .valueError
  else
    match structPackII totalLen nChunks with
    | .error e => .error e
    | .ok head =>
        .ok ((mobdusFileSendHeadRecNum, head) ::
          (data.zipIdx.map (fun c => (c.2, c.1)) ++
            [(mobdusFileSendTailRecNum, [])]))

/-- How the bytes of a record reach the callback as registers. -/
structure RecordCarrier where
  carry : List UInt8 → List UInt16
  even : ∀ bs : List UInt8, bs.length % 2 = 0 →
    carry bs = wireHalfwords bs

/-- The carrier that drops a last odd byte. -/
def droppingCarrier : RecordCarrier where
  carry := wireHalfwords
  even := by
    intro _ _
    rfl

/-- The carrier that pads a last odd byte with a zero byte. -/
def paddingCarrier : RecordCarrier where
  carry := fun bs =>
    wireHalfwords (if bs.length % 2 = 0 then bs else bs ++ [0])
  even := by
    intro bs hbs
    rw [if_pos hbs]

/-- The arbitrary file number of the sender. -/
def senderFileNumber : UInt16 := 10

/-- The record that arrives for an element of the chunk list. -/
def RecordCarrier.record
    (c : RecordCarrier) (chunk : Nat × List UInt8) : FileRecord :=
  FileRecord.ofRegisters senderFileNumber (UInt16.ofNat chunk.1)
    (c.carry chunk.2)

/-- send_data_chunks_via_modbus over a connected line -/
def sendDataChunksViaModbus
    (c : RecordCarrier) (s : FileReceiver) (data : ChunkList) :
    Except SenderError (List NmbsError × FileReceiver) :=
  if data.length > mobdusFileSendTailRecNum then
    .error .valueError
  else
    .ok (runWhile serverWriteFileRecord (fun e => e = .errorNone) s
      (data.map c.record))

end Sender

section Prepared

/-- The chunk list of a file that is not too long to be numbered. -/
def preparedList (data : List UInt8) : ChunkList :=
  (mobdusFileSendHeadRecNum,
    headerBytes data.length
      (slices mobdusPayloadChunkSize data).length) ::
    ((slices mobdusPayloadChunkSize data).zipIdx.map
        (fun c => (c.2, c.1)) ++
      [(mobdusFileSendTailRecNum, [])])

/-- The sender prepares a list unless there are more than 9998 slices. -/
theorem readFileAndPrepDataList_eq_ok_iff
    (data : List UInt8) (list : ChunkList) :
    readFileAndPrepDataList data = .ok list ↔
      (slices mobdusPayloadChunkSize data).length ≤
          mobdusFileSendHeadRecNum ∧
        list = preparedList data := by
  by_cases hmany :
      (slices mobdusPayloadChunkSize data).length ≤
        mobdusFileSendHeadRecNum
  · have hsizes := hmany
    simp only [length_slices, mobdusPayloadChunkSize,
      mobdusFileSendHeadRecNum] at hsizes
    have hpack :
        structPackII data.length
            (slices mobdusPayloadChunkSize data).length =
          .ok (headerBytes data.length
            (slices mobdusPayloadChunkSize data).length) := by
      rw [structPackII, if_pos]
      rw [length_slices, mobdusPayloadChunkSize]
      omega
    simp only [readFileAndPrepDataList, gt_iff_lt, Nat.not_lt.mpr hmany,
      if_false, hpack, Except.ok.injEq, hmany, true_and]
    rw [eq_comm]
    rfl
  · simp only [readFileAndPrepDataList, gt_iff_lt, Nat.lt_of_not_le hmany,
      if_true, hmany, false_and, reduceCtorEq]

theorem preparedList_length (data : List UInt8) :
    (preparedList data).length =
      (slices mobdusPayloadChunkSize data).length + 2 := by
  simp [preparedList]

variable (c : RecordCarrier) (data : List UInt8)

/-- The data records that arrive for the slices of a file. -/
def sliceRecords : List FileRecord :=
  (slices mobdusPayloadChunkSize data).zipIdx.map
    (fun chunk => c.record (chunk.2, chunk.1))

theorem sliceRecords_kind
    (hmany : (slices mobdusPayloadChunkSize data).length ≤
      mobdusFileSendHeadRecNum) :
    ∀ r ∈ sliceRecords c data, r.kind = .data := by
  intro r hr
  obtain ⟨⟨chunk, i⟩, hmem, rfl⟩ := List.mem_map.mp hr
  have hi := (List.mem_zipIdx hmem).2.1
  simp only [mobdusFileSendHeadRecNum] at hmany
  rw [kind_eq_data_iff]
  simp only [RecordCarrier.record, FileRecord.ofRegisters,
    UInt16.toNat_ofNat', mobdusFileSendHeadRecNum]
  omega

/-- The session that the records of a prepared file are. -/
def fileSession
    (hmany : (slices mobdusPayloadChunkSize data).length ≤
      mobdusFileSendHeadRecNum) : Session where
  head :=
    announceRecord senderFileNumber data.length
      (slices mobdusPayloadChunkSize data).length
  data := sliceRecords c data
  tail := tailRecord senderFileNumber
  headKind := announceRecord_kind _ _ _
  dataKind := sliceRecords_kind c data hmany
  tailKind := tailRecord_kind _

/-- The records that arrive for a prepared list are those of the session. -/
theorem preparedList_records
    (hmany : (slices mobdusPayloadChunkSize data).length ≤
      mobdusFileSendHeadRecNum) :
    (preparedList data).map c.record =
      (fileSession c data hmany).records := by
  have hhead :
      c.record (mobdusFileSendHeadRecNum,
          headerBytes data.length
            (slices mobdusPayloadChunkSize data).length) =
        announceRecord senderFileNumber data.length
          (slices mobdusPayloadChunkSize data).length := by
    simp only [RecordCarrier.record, announceRecord]
    rw [c.even _ (by rw [length_headerBytes])]
    rfl
  have htail :
      c.record (mobdusFileSendTailRecNum, []) =
        tailRecord senderFileNumber := by
    simp only [RecordCarrier.record, tailRecord]
    rw [c.even _ rfl]
    rfl
  simp only [preparedList, List.map_cons, List.map_append, List.map_nil,
    List.map_map, hhead, htail]
  rfl

/-- A slice of even length arrives as it is. -/
theorem record_bytes
    {chunk : Nat × List UInt8}
    (heven : chunk.2.length % 2 = 0)
    (hsmall : chunk.2.length ≤ mobdusPayloadChunkSize) :
    (c.record chunk).bytes = chunk.2 ∧
      (c.record chunk).count.toNat ≤ 120 := by
  simp only [mobdusPayloadChunkSize] at hsmall
  have hlen : (c.carry chunk.2).length = chunk.2.length / 2 := by
    rw [c.even _ heven, length_wireHalfwords]
  constructor
  · rw [FileRecord.bytes, RecordCarrier.record,
      payload_ofRegisters _ _ (by omega), c.even _ heven]
    exact wireString_wireHalfwords _ heven
  · simp only [RecordCarrier.record, FileRecord.ofRegisters,
      UInt16.toNat_ofNat', hlen]
    omega

/-- The data records of a file of even length carry the file. -/
theorem sliceRecords_spec
    (heven : data.length % 2 = 0) :
    (sliceRecords c data).flatMap FileRecord.bytes = data ∧
      ∀ r ∈ sliceRecords c data, r.count.toNat ≤ 120 := by
  have hslice : ∀ chunk ∈ slices mobdusPayloadChunkSize data,
      chunk.length % 2 = 0 ∧
        chunk.length ≤ mobdusPayloadChunkSize := by
    intro chunk hchunk
    exact ⟨even_length_of_mem_slices rfl heven hchunk,
      length_le_of_mem_slices hchunk⟩
  constructor
  · have hbytes :
        (slices mobdusPayloadChunkSize data).zipIdx.map
            (fun chunk => (c.record (chunk.2, chunk.1)).bytes) =
          (slices mobdusPayloadChunkSize data).zipIdx.map Prod.fst := by
      apply List.map_congr_left
      rintro ⟨chunk, i⟩ hmem
      obtain ⟨heven', hsmall⟩ :=
        hslice chunk (List.fst_mem_of_mem_zipIdx hmem)
      exact (record_bytes c heven' hsmall).1
    rw [List.flatMap_def, sliceRecords, List.map_map]
    refine (congrArg List.flatten hbytes).trans ?_
    rw [List.zipIdx_map_fst]
    exact flatten_slices (by decide) data
  · intro r hr
    obtain ⟨⟨chunk, i⟩, hmem, rfl⟩ := List.mem_map.mp hr
    obtain ⟨heven', hsmall⟩ :=
      hslice chunk (List.fst_mem_of_mem_zipIdx hmem)
    exact (record_bytes c heven' hsmall).2

end Prepared

section Agreement

/--
Sender and receiver agree on a file. A file that fits the buffer is prepared,
every record is answered without an error, and at the end the buffer starts
with the file. A file that is too long makes the sender raise, or its head is
rejected and context and buffer stay as they were.
-/
def SenderReceiverAgree
    (c : RecordCarrier) (s : FileReceiver) (file : List UInt8) : Prop :=
  (file.length ≤ modbusFileSendDataRecvBufSize →
    ∃ list s',
      readFileAndPrepDataList file = .ok list ∧
      sendDataChunksViaModbus c s list =
        .ok (List.replicate list.length .errorNone, s') ∧
      window s'.mem 0 file.length = file) ∧
  (modbusFileSendDataRecvBufSize < file.length →
    ∀ list es s',
      readFileAndPrepDataList file = .ok list →
      sendDataChunksViaModbus c s list = .ok (es, s') →
      es = [.errorInvalidRequest] ∧ s'.ctx = s.ctx ∧ s'.mem = s.mem)

variable (c : RecordCarrier) (s : FileReceiver) {file : List UInt8}

/-- Files that fit the buffer have few slices. -/
theorem few_slices
    (hfits : file.length ≤ modbusFileSendDataRecvBufSize) :
    (slices mobdusPayloadChunkSize file).length ≤ 9 := by
  simp only [modbusFileSendDataRecvBufSize] at hfits
  rw [length_slices, mobdusPayloadChunkSize]
  omega

theorem fileSession_totalLen
    (hmany : (slices mobdusPayloadChunkSize file).length ≤
      mobdusFileSendHeadRecNum) :
    (fileSession c file hmany).totalLen = file.length ∧
      ((fileSession c file hmany).head.AnnouncesTransfer ↔
        file.length ≤ modbusFileSendDataRecvBufSize) := by
  have hsizes := hmany
  simp only [length_slices, mobdusPayloadChunkSize,
    mobdusFileSendHeadRecNum] at hsizes
  have hlen32 : file.length < 4294967296 := by
    omega
  have hchunks32 :
      (slices mobdusPayloadChunkSize file).length < 4294967296 := by
    rw [length_slices, mobdusPayloadChunkSize]
    omega
  constructor
  · exact (announceRecord_header senderFileNumber hlen32 hchunks32).1
  · exact (announceRecord_announces_iff senderFileNumber hlen32
      hchunks32).trans (and_iff_right hmany)

/-- What the sender sees is the run of the session up to the first error. -/
theorem sendDataChunksViaModbus_prepared
    (hmany : (slices mobdusPayloadChunkSize file).length ≤
      mobdusFileSendHeadRecNum)
    {es : List NmbsError} {s' : FileReceiver}
    (hsend : sendDataChunksViaModbus c s (preparedList file) =
      .ok (es, s')) :
    runWhile serverWriteFileRecord (fun e => e = .errorNone) s
      (fileSession c file hmany).records = (es, s') := by
  simp only [sendDataChunksViaModbus] at hsend
  split at hsend
  · cases hsend
  · rw [preparedList_records c file hmany] at hsend
    exact Except.ok.inj hsend

/-- A session that is acknowledged announces an even length. -/
theorem even_totalLen_of_acknowledged
    {S : Session}
    (hack : AllAcknowledged s S.records) :
    S.totalLen % 2 = 0 := by
  rw [← ((session_acknowledged_iff s S).mp hack).2.2]
  exact flatMap_bytes_even S.data

/-- The transfer of a file of odd length is not completed. -/
theorem even_of_senderReceiverAgree
    (hfits : file.length ≤ modbusFileSendDataRecvBufSize)
    (hagree : SenderReceiverAgree c s file) :
    file.length % 2 = 0 := by
  obtain ⟨list, s', hread, hsend, _⟩ := hagree.1 hfits
  obtain ⟨hmany, rfl⟩ :=
    (readFileAndPrepDataList_eq_ok_iff file list).mp hread
  have hrun := sendDataChunksViaModbus_prepared c s hmany hsend
  have hack : AllAcknowledged s (fileSession c file hmany).records := by
    apply (forall_mem_runWhile_iff
      (fun e => e = NmbsError.errorNone) s _).mp
    rw [hrun]
    intro e he
    exact List.eq_of_mem_replicate he
  rw [← (fileSession_totalLen c hmany).1]
  exact even_totalLen_of_acknowledged s hack

/-- The transfer of a file of even length that fits is completed. -/
theorem agree_of_even
    (heven : file.length % 2 = 0)
    (hfits : file.length ≤ modbusFileSendDataRecvBufSize) :
    SenderReceiverAgree c s file := by
  have hfew := few_slices hfits
  have hmany :
      (slices mobdusPayloadChunkSize file).length ≤
        mobdusFileSendHeadRecNum := by
    exact Nat.le_trans hfew (by decide)
  obtain ⟨hlen, hannounce⟩ := fileSession_totalLen c hmany
  obtain ⟨hbytes, hsmall⟩ := sliceRecords_spec c file heven
  have hpayload : (fileSession c file hmany).payload = file := hbytes
  have hack : AllAcknowledged s (fileSession c file hmany).records := by
    rw [session_acknowledged_iff]
    exact ⟨hannounce.mpr hfits, hsmall, by rw [hpayload, hlen]⟩
  obtain ⟨m, hrun, _, hcontent, _⟩ := session_run_spec hack
  refine ⟨fun _ => ?_,
    fun hlong => absurd hfits (Nat.not_le.mpr hlong)⟩
  refine ⟨preparedList file,
    runState serverWriteFileRecord s
      (fileSession c file hmany).records, ?_, ?_, ?_⟩
  · exact (readFileAndPrepDataList_eq_ok_iff file _).mpr ⟨hmany, rfl⟩
  · have hshort :
        ¬ (preparedList file).length > mobdusFileSendTailRecNum := by
      rw [preparedList_length, mobdusFileSendTailRecNum]
      omega
    have hreplies :
        runReplies serverWriteFileRecord s
            (fileSession c file hmany).records =
          List.replicate (preparedList file).length .errorNone := by
      rw [List.eq_replicate_iff]
      refine ⟨?_, (allAcknowledged_iff_replies s _).mp hack⟩
      rw [length_runReplies, ← preparedList_records, List.length_map]
    simp only [sendDataChunksViaModbus, if_neg hshort,
      preparedList_records c file hmany]
    rw [runWhile_eq_of_stepsMeet
      (P := fun e => e = NmbsError.errorNone) hack, hreplies]
  · rw [hlen] at hcontent
    rw [hrun, hcontent, hpayload]

/-- The head of a file that does not fit is rejected. -/
theorem agree_of_long
    (hlong : modbusFileSendDataRecvBufSize < file.length) :
    SenderReceiverAgree c s file := by
  refine ⟨fun hfits => absurd hfits (Nat.not_le.mpr hlong), ?_⟩
  intro _ list es s' hread hsend
  obtain ⟨hmany, rfl⟩ :=
    (readFileAndPrepDataList_eq_ok_iff file list).mp hread
  have hrun := sendDataChunksViaModbus_prepared c s hmany hsend
  have hbad : ¬ (fileSession c file hmany).head.AnnouncesTransfer := by
    rw [(fileSession_totalLen c hmany).2]
    exact Nat.not_le.mpr hlong
  have hhead :
      serverWriteFileRecord s (fileSession c file hmany).head =
        (.errorInvalidRequest, s) :=
    step_head_rejected s (fileSession c file hmany).headKind hbad
  rw [Session.records, Session.opening, List.cons_append, runWhile,
    hhead] at hrun
  simp only [reduceCtorEq, if_false, Prod.mk.injEq] at hrun
  obtain ⟨rfl, rfl⟩ := hrun
  exact ⟨rfl, rfl, rfl⟩

/--
Sender and receiver, over every carrier, after every history and for every
file: they agree exactly when the file has even length or is longer than the
buffer.
-/
theorem sender_receiver_agree_iff
    (c : RecordCarrier) (history : List FileRecord)
    (file : List UInt8) :
    SenderReceiverAgree c (receiverAfter history) file ↔
      file.length % 2 = 0 ∨
        modbusFileSendDataRecvBufSize < file.length := by
  constructor
  · intro hagree
    by_cases hfits : file.length ≤ modbusFileSendDataRecvBufSize
    · exact Or.inl (even_of_senderReceiverAgree c _ hfits hagree)
    · exact Or.inr (Nat.lt_of_not_le hfits)
  · rintro (heven | hlong)
    · by_cases hfits : file.length ≤ modbusFileSendDataRecvBufSize
      · exact agree_of_even c _ heven hfits
      · exact agree_of_long c _ (Nat.lt_of_not_le hfits)
    · exact agree_of_long c _ hlong

/-- A file of one letter fails with a dropped and with a padded byte. -/
theorem oneLetter_disagree :
    ¬ SenderReceiverAgree droppingCarrier (receiverAfter []) [0x41] ∧
      ¬ SenderReceiverAgree paddingCarrier (receiverAfter []) [0x41] := by
  constructor
  · intro hagree
    have heven := even_of_senderReceiverAgree _ _ (by decide) hagree
    cases heven
  · intro hagree
    have heven := even_of_senderReceiverAgree _ _ (by decide) hagree
    cases heven

end Agreement

end Port
end ModbusRtu
