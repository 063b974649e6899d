import ModbusRtu.Port.BusConversation
import ModbusRtu.Port.DeviceService
import ModbusRtu.Port.PythonSender

/-!
# Files and registers on the bus

The conversation of the server with the bus, for the device of port.c and pauses
that fit its timeouts of 100 and 200 ms. A file request with one record is
always served, so a conversation whose file requests have one record each never
goes wrong, and its replies are those of the device.

The receiver takes the records of the file requests and nothing else, and the
registers take the values of the register requests and nothing else. A file that
is sent record by record therefore arrives whatever other transactions lie
between its records: register requests, requests to other units and their
responses, frames with a wrong check, frames that break off, idle polls. A
register holds the value written last, whatever records are sent.
-/

namespace ModbusRtu
namespace Port

open Kernel

section Meeting

/-- The frames that a transaction is answered with, and the device behind it. -/
def DeviceView.meet (crcCalc : List UInt8 → UInt16) (v : DeviceView) :
    Transaction → List (List UInt8) × DeviceView
  | .ours unit r =>
      (answerFrames crcCalc unit r.fc (v.serve r).1, (v.serve r).2)
  | _ => ([], v)

/-- A file request has one well-formed record. -/
def Request.Single : Request → Prop
  | .writeRecords data => ∃ e : FileEntry, e.WellFormed ∧ data = e.bytes
  | _ => True

/-- A single record lies inside its request. -/
theorem Request.Single.bounded {r : Request} (hr : r.Single) :
    r.Bounded := by
  cases r with
  | readRegisters | writeRegister | writeRegisters =>
      trivial
  | writeRecords data =>
      rcases hr with ⟨e, he, rfl⟩
      have hinside := @not_overruns_of_wellFormed [e] (by simpa using he)
      rwa [List.flatMap_singleton] at hinside

/-- The file request of a transaction with this unit has one record. -/
def Transaction.Single : Transaction → Prop
  | .ours _ r => r.Single
  | _ => True

variable {γ : Type}
variable {pin : OutputPin γ}
variable {unit : UInt8}

/-- The service of such a request is defined. -/
theorem serve_of_single
    (pin : OutputPin γ) {r : Request} (hr : r.Single) (target : UInt8)
    (stale : List UInt8) (d : PortDevice γ) :
    ∃ p, serve (portCallbacks pin) target stale r d = some p := by
  cases r with
  | readRegisters | writeRegister | writeRegisters =>
      exact ⟨_, rfl⟩
  | writeRecords data =>
      rcases hr with ⟨e, he, rfl⟩
      exact ⟨_, serveRecords_singleton he stale⟩

theorem effect_refines_view
    (pin : OutputPin γ) (unit : UInt8) {t : Transaction} (ht : t.Single)
    (d : PortDevice γ) :
    ∃ d', t.effect (portConf pin unit) d =
        some (((viewOf pin d).meet nmbsCrcCalc t).1, d') ∧
      viewOf pin d' = ((viewOf pin d).meet nmbsCrcCalc t).2 := by
  cases t with
  | ours target r =>
      obtain ⟨⟨reply, d'⟩, hserve⟩ :=
        serve_of_single pin ht target [] d
      have hview := serve_refines_view hserve
      have hconf : serve (portConf pin unit).callbacks target [] r d =
          some (reply, d') := hserve
      refine ⟨d', ?_, ?_⟩
      · rw [Transaction.effect, hconf, DeviceView.meet, hview]
        rfl
      · rw [DeviceView.meet, hview]
  | others | refused | damaged | cut =>
      exact ⟨d, rfl, rfl⟩

/-- What a conversation sends and leaves is what the device does. -/
theorem converse_refines_view
    (pin : OutputPin γ) (unit : UInt8) {ts : List Transaction}
    (hts : ∀ t ∈ ts, t.Single) (d : PortDevice γ) :
    ∃ d', converse (portConf pin unit) ts d =
        some ((runReplies (DeviceView.meet nmbsCrcCalc) (viewOf pin d)
          ts).flatten, d') ∧
      viewOf pin d' =
        runState (DeviceView.meet nmbsCrcCalc) (viewOf pin d) ts := by
  induction ts generalizing d with
  | nil =>
      exact ⟨d, rfl, rfl⟩
  | cons t ts ih =>
      obtain ⟨d', heffect, hview⟩ :=
        effect_refines_view pin unit (hts t (List.mem_cons_self ..)) d
      obtain ⟨d'', hconverse, hview'⟩ :=
        ih (fun t' ht' => hts t' (List.mem_cons_of_mem t ht')) d'
      rw [hview] at hconverse hview'
      refine ⟨d'', ?_, hview'⟩
      rw [converse_cons heffect, hconverse]
      rfl

/-- A conversation whose file requests have one record each goes well. -/
theorem leads_with_device
    (pin : OutputPin γ) (unit : UInt8) (s : Server (PortDevice γ))
    {pause : Int32} (hpause : 0 < pause) (hbt : s.byteTimeoutMs < pause)
    (hrt : pause ≤ s.readTimeoutMs) {ts : List Transaction}
    (hvalid : ∀ t ∈ ts, t.Valid (portConf pin unit))
    (hsingle : ∀ t ∈ ts, t.Single) (sent : List (List UInt8)) :
    Leads (answering (respond pause)) (fun _ => False)
      (times (nmbsServerPoll (portConf pin unit)) ts.length) s
      ⟨[], ts.flatMap (Transaction.bursts nmbsCrcCalc), sent⟩
      fun errs s' line => errs = ts.map Transaction.status ∧
        line.current = [] ∧ line.coming = [] ∧
        line.sent = sent ++ (runReplies (DeviceView.meet nmbsCrcCalc)
          (viewOf pin s.device) ts).flatten ∧
        viewOf pin s'.device =
          runState (DeviceView.meet nmbsCrcCalc) (viewOf pin s.device) ts := by
  obtain ⟨d', hconverse, hview⟩ :=
    converse_refines_view pin unit hsingle s.device
  have hends := @conversation _ (portConf pin unit) pause rfl s
    hpause hbt hrt ts hvalid sent
  refine hends.mono ?_ fun _ hnone => ?_
  · rintro errs s' line ⟨herrs, -, -, hcurrent, hcoming, frames, hframes,
      hsent⟩
    rw [hconverse] at hframes
    obtain ⟨rfl, rfl⟩ := Prod.mk.inj (Option.some.inj hframes)
    exact ⟨herrs, hcurrent, hcoming, hsent, hview⟩
  · rw [hconverse] at hnone
    cases hnone

/--
The run of the server of port.c on a conversation whose file requests have one
record each, from any device.
-/
theorem conversation_with_device
    {pause : Int32} (hbt : 100 < pause) (hrt : pause ≤ 200)
    (d : PortDevice γ) {ts : List Transaction}
    (hvalid : ∀ t ∈ ts, t.Valid (portConf pin unit))
    (hsingle : ∀ t ∈ ts, t.Single) :
    ∃ s' : Server (PortDevice γ),
      runDialogue (respond pause)
          (times (nmbsServerPoll (portConf pin unit)) ts.length
            (portServer d))
          ⟨[], ts.flatMap (Transaction.bursts nmbsCrcCalc), []⟩ =
        (some (ts.map Transaction.status, s'),
          ⟨[], [], (runReplies (DeviceView.meet nmbsCrcCalc) (viewOf pin d)
            ts).flatten⟩) ∧
      viewOf pin s'.device =
        runState (DeviceView.meet nmbsCrcCalc) (viewOf pin d) ts := by
  have hpause : 0 < pause := Int32.lt_trans (by decide) hbt
  obtain ⟨⟨errs, s'⟩, ⟨current, coming, sent⟩, hrun, rfl, rfl, rfl, rfl,
    hview⟩ := run_of_ends (leads_with_device pin unit (portServer d) hpause
      hbt hrt hvalid hsingle [])
  exact ⟨s', hrun, hview⟩

end Meeting

section Files

variable {γ : Type}
variable {pin : OutputPin γ}

/-- The entry that carries an element of a chunk list. -/
def chunkEntry (chunk : Nat × List UInt8) : FileEntry where
  fileNumber := senderFileNumber
  recordNumber := UInt16.ofNat chunk.1
  registers := wireHalfwords chunk.2

/-- The request that carries an element of a chunk list. -/
def chunkRequest (chunk : Nat × List UInt8) : Request :=
  .writeRecords (chunkEntry chunk).bytes

/-- The file request of a transaction with this unit. -/
def Transaction.fileRequest : Transaction → Option Request
  | .ours _ (.writeRecords data) => some (.writeRecords data)
  | _ => none

/-- The receiver with a file request handed to it. -/
def takeFile (s : FileReceiver) (r : Request) :
    List NmbsError × FileReceiver :=
  handOn s r.records

/-- The receiver takes what the file requests hand to it. -/
theorem receiver_of_meet
    (crcCalc : List UInt8 → UInt16) (v : DeviceView)
    (ts : List Transaction) :
    (runState (DeviceView.meet crcCalc) v ts).receiver =
      runState takeFile v.receiver
        (ts.filterMap Transaction.fileRequest) := by
  refine projected_run DeviceView.receiver ?_ ?_ v ts
  · intro v t hother
    cases t with
    | ours target r =>
        cases r with
        | writeRecords data =>
            cases hother
        | readRegisters | writeRegister | writeRegisters =>
            exact receiver_of_serve v _
    | others | refused | damaged | cut =>
        rfl
  · intro v t r hselected
    cases t with
    | ours target r' =>
        cases r' with
        | writeRecords data =>
            obtain rfl := Option.some.inj hselected
            exact receiver_of_serve v _
        | readRegisters | writeRegister | writeRegisters =>
            cases hselected
    | others | refused | damaged | cut =>
        cases hselected

/-- The numbers and the sizes of the elements of a prepared list. -/
theorem mem_preparedList
    {file : List UInt8} (heven : file.length % 2 = 0)
    (hfits : file.length ≤ modbusFileSendDataRecvBufSize)
    {chunk : Nat × List UInt8} (hchunk : chunk ∈ preparedList file) :
    chunk.1 ≤ mobdusFileSendTailRecNum ∧ chunk.2.length % 2 = 0 ∧
      chunk.2.length ≤ mobdusPayloadChunkSize := by
  have hfew := few_slices hfits
  rcases List.mem_cons.mp hchunk with rfl | hchunk
  · dsimp only
    rw [length_headerBytes, mobdusFileSendHeadRecNum,
      mobdusFileSendTailRecNum, mobdusPayloadChunkSize]
    omega
  · rcases List.mem_append.mp hchunk with hslice | htail
    · obtain ⟨⟨slice, i⟩, hmem, rfl⟩ := List.mem_map.mp hslice
      have hi := (List.mem_zipIdx hmem).2.1
      have hslice := List.fst_mem_of_mem_zipIdx hmem
      refine ⟨?_, even_length_of_mem_slices rfl heven hslice,
        length_le_of_mem_slices hslice⟩
      rw [mobdusFileSendTailRecNum]
      omega
    · obtain rfl := List.mem_singleton.mp htail
      exact ⟨by decide, rfl, Nat.zero_le _⟩

theorem chunkEntry_wellFormed
    {chunk : Nat × List UInt8}
    (hnumber : chunk.1 ≤ mobdusFileSendTailRecNum)
    (hsmall : chunk.2.length ≤ mobdusPayloadChunkSize) :
    (chunkEntry chunk).WellFormed := by
  rw [mobdusFileSendTailRecNum] at hnumber
  rw [mobdusPayloadChunkSize] at hsmall
  have hfile : senderFileNumber ≠ 0 := by
    decide
  refine ⟨hfile, ?_, ?_⟩
  · rw [UInt16.le_iff_toNat_le]
    change (UInt16.ofNat chunk.1).toNat ≤ 9999
    rw [UInt16.toNat_ofNat']
    omega
  · change (wireHalfwords chunk.2).length ≤ 122
    rw [length_wireHalfwords]
    omega

/-- The elements of a prepared list make well-formed entries. -/
theorem prepared_wellFormed
    {file : List UInt8} (heven : file.length % 2 = 0)
    (hfits : file.length ≤ modbusFileSendDataRecvBufSize)
    {chunk : Nat × List UInt8} (hchunk : chunk ∈ preparedList file) :
    (chunkEntry chunk).WellFormed := by
  obtain ⟨hnumber, -, hsmall⟩ := mem_preparedList heven hfits hchunk
  exact chunkEntry_wellFormed hnumber hsmall

/-- A request of a sender has one record. -/
theorem single_of_chunk
    {file : List UInt8} (heven : file.length % 2 = 0)
    (hfits : file.length ≤ modbusFileSendDataRecvBufSize)
    {chunk : Nat × List UInt8} (hchunk : chunk ∈ preparedList file) :
    (chunkRequest chunk).Single :=
  ⟨chunkEntry chunk, prepared_wellFormed heven hfits hchunk, rfl⟩

/-- The record that arrives is the one that the sender sends. -/
theorem records_chunkRequest
    (c : RecordCarrier) {chunk : Nat × List UInt8}
    (hentry : (chunkEntry chunk).WellFormed)
    (heven : chunk.2.length % 2 = 0) :
    (chunkRequest chunk).records = [c.record chunk] := by
  rw [chunkRequest, Request.records, scanEntries_singleton hentry,
    RecordCarrier.record, c.even _ heven]
  rfl

/-- Handing one record to the receiver is one call. -/
theorem handOn_singleton (s : FileReceiver) (r : FileRecord) :
    handOn s [r] =
      ([(serverWriteFileRecord s r).1], (serverWriteFileRecord s r).2) := by
  simp only [handOn, runWhile]
  split <;> rfl

/-- Requests with one record each are calls of the receiver. -/
theorem runState_handOn
    {s : FileReceiver} {requests : List Request} {records : List FileRecord}
    (h : List.Forall₂ (fun r record => Request.records r = [record])
      requests records) :
    runState takeFile s requests =
      runState serverWriteFileRecord s records := by
  induction h generalizing s with
  | nil =>
      rfl
  | cons hhead _ ih =>
      rw [runState_cons, runState_cons, ih, takeFile, hhead,
        handOn_singleton]

/-- What requests of a sender make of the receiver. -/
theorem receiver_of_chunks
    {file : List UInt8} (heven : file.length % 2 = 0)
    (hfits : file.length ≤ modbusFileSendDataRecvBufSize)
    {chunks : ChunkList} (hchunks : ∀ c ∈ chunks, c ∈ preparedList file)
    (s : FileReceiver) :
    runState takeFile s (chunks.map chunkRequest) =
      runState serverWriteFileRecord s
        (chunks.map droppingCarrier.record) := by
  refine runState_handOn ?_
  rw [List.forall₂_map_left_iff, List.forall₂_map_right_iff,
    List.forall₂_same]
  intro chunk hchunk
  exact records_chunkRequest droppingCarrier
    (prepared_wellFormed heven hfits (hchunks chunk hchunk))
    (mem_preparedList heven hfits (hchunks chunk hchunk)).2.1

end Files

section Transfer

variable {γ : Type}
variable {pin : OutputPin γ}
variable {file : List UInt8}

/-- The records of a file of even length that fits are all acknowledged. -/
theorem prepared_acknowledged
    (heven : file.length % 2 = 0)
    (hfits : file.length ≤ modbusFileSendDataRecvBufSize)
    (s : FileReceiver) :
    ∃ S : Session, AllAcknowledged s S.records ∧
      S.records = (preparedList file).map droppingCarrier.record ∧
      S.payload = file ∧ S.totalLen = file.length := by
  have hmany : (slices mobdusPayloadChunkSize file).length ≤
      mobdusFileSendHeadRecNum :=
    Nat.le_trans (few_slices hfits) (by decide)
  obtain ⟨hlen, hannounce⟩ := fileSession_totalLen droppingCarrier hmany
  obtain ⟨hbytes, hsmall⟩ := sliceRecords_spec droppingCarrier file heven
  have hpayload : (fileSession droppingCarrier file hmany).payload = file :=
    hbytes
  refine ⟨fileSession droppingCarrier file hmany, ?_,
    (preparedList_records droppingCarrier file hmany).symm, hpayload, hlen⟩
  rw [session_acknowledged_iff]
  exact ⟨hannounce.mpr hfits, hsmall, by rw [hpayload, hlen]⟩

/-- A request with one record is one call of the receiver. -/
theorem serve_chunkRequest
    (v : DeviceView) {chunk : Nat × List UInt8}
    (hentry : (chunkEntry chunk).WellFormed) :
    let out :=
      serverWriteFileRecord v.receiver (droppingCarrier.record chunk)
    v.serve (chunkRequest chunk) =
      (if out.1 = .errorNone then .response (chunkRequest chunk).fields
        else .exception .exceptionServerDeviceFailure,
        { v with receiver := out.2 }) := by
  have hrecord : (chunkEntry chunk).record = droppingCarrier.record chunk :=
    rfl
  rw [chunkRequest, DeviceView.serve, scanEntries_singleton hentry]
  simp only [List.map_cons, List.map_nil, hrecord, handOn_singleton,
    List.forall_mem_singleton]
  rfl

/-- A record that is acknowledged is answered with its own fields. -/
theorem reply_of_acknowledged
    {v : DeviceView} {chunk : Nat × List UInt8}
    (hentry : (chunkEntry chunk).WellFormed)
    (hack : Acknowledged v.receiver (droppingCarrier.record chunk)) :
    (v.serve (chunkRequest chunk)).1 =
      .response (chunkRequest chunk).fields := by
  rw [serve_chunkRequest v hentry]
  exact if_pos hack

/-- The frame that repeats a request. -/
theorem answerFrames_echo
    {target : UInt8} (htarget : target ≠ nmbsBroadcastAddress)
    (r : Request) :
    answerFrames nmbsCrcCalc target r.fc (.response r.fields) =
      [requestFrame nmbsCrcCalc (target, r)] := by
  rw [answerFrames, if_neg htarget]
  rfl

/-- The requests of a sender have one record each. -/
theorem single_of_fileRequests
    (heven : file.length % 2 = 0)
    (hfits : file.length ≤ modbusFileSendDataRecvBufSize)
    {ts : List Transaction}
    (hfile : ts.filterMap Transaction.fileRequest =
      (preparedList file).map chunkRequest) :
    ∀ t ∈ ts, t.Single := by
  intro t ht
  cases t with
  | ours target r =>
      cases r with
      | readRegisters | writeRegister | writeRegisters =>
          trivial
      | writeRecords data =>
          have hmem : Request.writeRecords data ∈
              (preparedList file).map chunkRequest := by
            rw [← hfile]
            exact List.mem_filterMap.mpr ⟨_, ht, rfl⟩
          obtain ⟨chunk, hchunk, hdata⟩ := List.mem_map.mp hmem
          rw [Transaction.Single, ← hdata]
          exact single_of_chunk heven hfits hchunk
  | others | refused | damaged | cut =>
      trivial

/-- Every request of a sender is answered by its own frame. -/
theorem echoed_of_fileRequests
    (heven : file.length % 2 = 0)
    (hfits : file.length ≤ modbusFileSendDataRecvBufSize)
    {ts : List Transaction}
    (hfile : ts.filterMap Transaction.fileRequest =
      (preparedList file).map chunkRequest)
    (v : DeviceView) {target : UInt8} {data : List UInt8}
    (htarget : target ≠ nmbsBroadcastAddress)
    (ht : Transaction.ours target (.writeRecords data) ∈ ts) :
    requestFrame nmbsCrcCalc (target, .writeRecords data) ∈
      (runReplies (DeviceView.meet nmbsCrcCalc) v ts).flatten := by
  obtain ⟨pre, post, rfl⟩ := List.append_of_mem ht
  have hselected :
      Transaction.fileRequest (.ours target (.writeRecords data)) =
        some (.writeRecords data) := rfl
  rw [List.filterMap_append, List.filterMap_cons_some hselected] at hfile
  obtain ⟨before, behind, hsplit, hpre, hrest⟩ :=
    List.map_eq_append_iff.mp hfile.symm
  obtain ⟨chunk, after, rfl, hchunk, -⟩ := List.map_eq_cons_iff.mp hrest
  obtain ⟨S, hack, hrecords, -, -⟩ :=
    prepared_acknowledged heven hfits v.receiver
  have hmem : chunk ∈ preparedList file := by
    rw [hsplit]
    simp
  have hbefore : ∀ c ∈ before, c ∈ preparedList file := by
    intro c hc
    rw [hsplit]
    exact List.mem_append_left _ hc
  have hreceiver : (runState (DeviceView.meet nmbsCrcCalc) v pre).receiver =
      runState serverWriteFileRecord v.receiver
        (before.map droppingCarrier.record) := by
    rw [receiver_of_meet, ← hpre]
    exact receiver_of_chunks heven hfits hbefore v.receiver
  rw [hrecords, hsplit, List.map_append, List.map_cons, AllAcknowledged,
    stepsMeet_append, stepsMeet_cons] at hack
  rw [← hreceiver] at hack
  have hreply := reply_of_acknowledged
    (prepared_wellFormed heven hfits hmem) hack.2.1
  rw [runReplies_append, runReplies_cons, List.flatten_append,
    List.flatten_cons, List.mem_append, List.mem_append]
  refine Or.inr (Or.inl ?_)
  rw [DeviceView.meet, ← hchunk, hreply, answerFrames_echo htarget]
  exact List.mem_singleton_self _

/--
What the records of a file make of the receiver. The text that is handed on ends
inside the buffer exactly if a zero byte is in the file or was behind it: without
one the source reads on behind the buffer, and the model takes the text up to
the end of the buffer.
-/
structure TookFile (file : List UInt8) (before after : FileReceiver) :
    Prop where
  content : window after.mem 0 file.length = file
  behind : ∀ k, file.length ≤ k → after.mem k = before.mem k
  closed : after.ctx = ⟨none, none, 0⟩
  handedOn : after.printed = before.printed ++
    [cString after.mem 0 modbusFileSendDataRecvBufSize]
  inside : Terminated after.mem 0 modbusFileSendDataRecvBufSize ↔
    0 ∈ file ∨ ∃ k, file.length ≤ k ∧ k < modbusFileSendDataRecvBufSize ∧
      before.mem k = 0

/-- The receiver behind the records of a file. -/
theorem receiver_of_records
    (heven : file.length % 2 = 0)
    (hfits : file.length ≤ modbusFileSendDataRecvBufSize)
    {r r' : FileReceiver}
    (hr : r' = runState serverWriteFileRecord r
      ((preparedList file).map droppingCarrier.record)) :
    TookFile file r r' := by
  obtain ⟨S, hack, hrecords, hpayload, hlen⟩ :=
    prepared_acknowledged heven hfits r
  obtain ⟨m, hstate, -, hcontent, hbehind⟩ := session_run_spec hack
  rw [hlen, hpayload] at hcontent
  rw [hlen] at hbehind
  rw [hr, ← hrecords, hstate]
  refine ⟨hcontent, hbehind, rfl, rfl, ?_⟩
  rw [terminated_iff_or_behind hfits, hcontent]
  refine or_congr_right (exists_congr fun k => and_congr_right fun hk => ?_)
  rw [← hbehind k hk]

/-- The receiver behind a conversation with the requests of a sender. -/
theorem receiver_of_file
    (heven : file.length % 2 = 0)
    (hfits : file.length ≤ modbusFileSendDataRecvBufSize)
    {ts : List Transaction}
    (hfile : ts.filterMap Transaction.fileRequest =
      (preparedList file).map chunkRequest)
    {v v' : DeviceView}
    (hv : v' = runState (DeviceView.meet nmbsCrcCalc) v ts) :
    TookFile file v.receiver v'.receiver := by
  refine receiver_of_records heven hfits ?_
  rw [hv, receiver_of_meet, hfile,
    receiver_of_chunks heven hfits fun _ hc => hc]

/-- The requests of a sender are transactions with this unit. -/
theorem valid_of_chunk
    (pin : OutputPin γ) (unit : UInt8)
    (heven : file.length % 2 = 0)
    (hfits : file.length ≤ modbusFileSendDataRecvBufSize)
    {chunk : Nat × List UInt8} (hchunk : chunk ∈ preparedList file) :
    (Transaction.ours unit (chunkRequest chunk)).Valid
      (portConf pin unit) := by
  have hentry := prepared_wellFormed heven hfits hchunk
  refine ⟨Or.inr rfl, ?_,
    (single_of_chunk heven hfits hchunk).bounded⟩
  change (chunkEntry chunk).bytes.length ≤ 251
  have hfew := hentry.registers
  rw [FileEntry.length_bytes]
  omega

end Transfer

section Accesses

variable {γ : Type}
variable {pin : OutputPin γ}

/-- The register and the values that a request writes. -/
def Request.registerWrite : Request → Option (Nat × List UInt16)
  | .writeRegister address value => some (address.toNat, [value])
  | .writeRegisters address quantity byteCount data =>
      if quantity < 1 ∨ quantity > 0x007B then none
      else if address.toNat + quantity.toNat > 0xFFFF + 1 then none
      else if byteCount.toNat ≠ quantity.toNat * 2 then none
      else
        some (address.toNat,
          (List.range quantity.toNat).map
            (registersOf (wireHalfwords data)))
  | _ => none

/-- The register and the values that a transaction with this unit writes. -/
def Transaction.registerWrite : Transaction → Option (Nat × List UInt16)
  | .ours _ r => r.registerWrite
  | _ => none

/-- The store with values written. -/
def RegisterStore.write (m : RegisterStore) (w : Nat × List UInt16) :
    Unit × RegisterStore :=
  ((), m.putAll w.1 w.2)

/-- The store behind a list of transactions. -/
def RegisterStore.behind (m : RegisterStore) (ts : List Transaction) :
    RegisterStore :=
  runState RegisterStore.write m (ts.filterMap Transaction.registerWrite)

/-- The response with the values of registers. -/
def RegisterStore.response (m : RegisterStore) (address quantity : UInt16) :
    Reply :=
  .response (UInt8.ofNat (quantity.toNat * 2) ::
    wireString ((List.range quantity.toNat).map fun i =>
      m.get (address.toNat + i)))

end Accesses

end Port
end ModbusRtu
