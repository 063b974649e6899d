import ModbusRtu.Kernel.Resending
import ModbusRtu.Port.BusTransfer
import ModbusRtu.Port.RetriedRecord

/-!
# A transfer over a bus that loses messages

The test script asks its client to send a request again when no response comes.
The client waits longer for it than the server does for a request, so the server
has idle polls in between. A response that is missing does not tell whether the
request has been served, so a record may reach the receiver several times, and
the sender gives up in the middle when the attempts run out.

The receiver does not recognise a copy. A head starts the same transfer again
and an empty data record stores nothing, so their copies do no harm. A copy of
any other data record leaves fewer bytes than the rest of the file needs: the
sender is stopped by a refused record before it gets to the tail. A copy of the
tail is refused. So what a sender reports is true, whatever is lost: it comes to
the end exactly when no record but such harmless ones has been taken twice, and
the receiver has then taken the file. A transfer that fails may still have been
handed on, in the one case that everything but the answer to the tail went well.
-/

namespace ModbusRtu
namespace Port

open Kernel

section Steps

/-- A copy of the record changes nothing. -/
def Repeatable (r : FileRecord) : Prop :=
  r.kind = .head ∨ (r.kind = .data ∧ r.count.toNat = 0)

/-- Fewer bytes remain than the data records still to be sent carry. -/
def Overfilled (rs : List FileRecord) (s : FileReceiver) : Prop :=
  (∀ r ∈ rs, r.kind = .data) ∧
    s.ctx.recvBufRest.toNat < (rs.flatMap FileRecord.bytes).length

/-- A data record that is acknowledged takes the room of its registers. -/
theorem rest_of_data
    (s : FileReceiver) {r : FileRecord}
    (hdata : r.kind = .data) :
    (serverWriteFileRecord s r).2.ctx.recvBufRest.toNat ≤
        s.ctx.recvBufRest.toNat ∧
      (Acknowledged s r →
        (serverWriteFileRecord s r).2.ctx.recvBufRest.toNat +
          2 * r.count.toNat = s.ctx.recvBufRest.toNat) := by
  rw [Acknowledged]
  have hout := serverWriteFileRecord_outcome s r
  generalize serverWriteFileRecord s r = out at hout ⊢
  cases hout with
  | dataClosed | dataTooLong =>
      exact ⟨Nat.le_refl _, fun hack => by cases hack⟩
  | dataStored hkind ptr rest hptr hlen hfit hrest =>
      simp only
      omega
  | dataCut hkind ptr rest hptr hlen hcut hrest =>
      refine ⟨?_, fun hack => by cases hack⟩
      simp only [hrest]
      exact Nat.mod_le ..
  | outOfRange hk | headRejected hk | headAccepted hk
  | tailDelivered hk | tailIncomplete hk | tailWithoutBuffer hk
  | tailClosed hk =>
      simp [hdata] at hk

/-- An empty data record that is acknowledged changes nothing. -/
theorem step_empty_data
    {s : FileReceiver} {r : FileRecord}
    (hdata : r.kind = .data) (hempty : r.count.toNat = 0)
    (hack : Acknowledged s r) :
    serverWriteFileRecord s r = (.errorNone, s) := by
  rw [Acknowledged] at hack
  have hout := serverWriteFileRecord_outcome s r
  generalize serverWriteFileRecord s r = out at hout hack ⊢
  cases hout with
  | dataStored hkind ptr rest hptr hlen hfit hrest =>
      have hsame : rest = s.ctx.recvBufRest := by
        rw [← UInt32.toNat_inj, hrest, hempty]
        rfl
      have hnil : r.payload = [] := by
        rw [← List.length_eq_zero_iff, length_payload, hempty]
      rw [hsame, hnil, hempty, Nat.mul_zero, Nat.add_zero, ← hptr]
      rfl
  | dataClosed | dataTooLong | dataCut =>
      cases hack
  | outOfRange hk | headRejected hk | headAccepted hk
  | tailDelivered hk | tailIncomplete hk | tailWithoutBuffer hk
  | tailClosed hk =>
      simp [hdata] at hk

/-- An acknowledged step of a repeatable record may be taken again. -/
theorem step_repeatable
    {s : FileReceiver} {r : FileRecord}
    (hrepeatable : Repeatable r)
    (hack : Acknowledged s r) :
    serverWriteFileRecord (serverWriteFileRecord s r).2 r =
      serverWriteFileRecord s r := by
  rcases hrepeatable with hhead | ⟨hdata, hempty⟩
  · have hok := (acknowledged_head_iff s hhead).mp hack
    rw [step_head_accepted s hhead hok, step_head_accepted _ hhead hok]
  · have hstep := step_empty_data hdata hempty hack
    rw [hstep, hstep]

/-- Records other than tails hand nothing on. -/
theorem printed_step
    (s : FileReceiver) {r : FileRecord}
    (hkind : r.kind ≠ .tail) :
    (serverWriteFileRecord s r).2.printed = s.printed := by
  have hout := serverWriteFileRecord_outcome s r
  generalize serverWriteFileRecord s r = out at hout ⊢
  cases hout with
  | outOfRange | headRejected | headAccepted | dataClosed
  | dataTooLong | dataStored | dataCut =>
      rfl
  | tailDelivered hk | tailIncomplete hk | tailWithoutBuffer hk
  | tailClosed hk =>
      exact absurd hk hkind

theorem printed_run
    (s : FileReceiver) {rs : List FileRecord}
    (hkind : ∀ r ∈ rs, r.kind ≠ .tail) :
    (runState serverWriteFileRecord s rs).printed = s.printed := by
  refine invariant_run (G := fun _ r => FileRecord.kind r ≠ .tail)
    (P := fun t => FileReceiver.printed t = s.printed) ?_ rfl
    (stepsMeet_of_forall_mem _ _ hkind)
  intro t r ht hr
  rw [printed_step t hr, ht]

/-- What remains is never again enough for the records to be sent. -/
theorem overfilled_spoils :
    Spoils serverWriteFileRecord (· = .errorNone) Overfilled where
  kept := by
    rintro r rs s ⟨hdata, hfew⟩
    have hless := (rest_of_data s (hdata r (List.mem_cons_self ..))).1
    exact ⟨hdata, Nat.lt_of_le_of_lt hless hfew⟩
  passed := by
    rintro r rs s ⟨hdata, hfew⟩ hack
    rw [List.forall_mem_cons] at hdata
    have hroom := (rest_of_data s hdata.1).2 hack
    rw [List.flatMap_cons, List.length_append, length_bytes] at hfew
    exact ⟨hdata.2, by omega⟩
  hopeless := by
    rintro s ⟨-, hfew⟩
    exact Nat.not_lt_zero _ hfew

end Steps

section Sender

/-- Where nothing is lost, the sender of the script sends each record once. -/
theorem sendDataChunksViaModbus_heard
    {c : RecordCarrier} {s s' : FileReceiver} {data : ChunkList}
    {es : List NmbsError}
    (hsend : sendDataChunksViaModbus c s data = .ok (es, s')) :
    resendAll serverWriteFileRecord (· = .errorNone) s
        ((data.map c.record).map fun r => (r, [.heard])) =
      (decide (∀ e ∈ es, e = .errorNone), s') := by
  simp only [sendDataChunksViaModbus] at hsend
  split at hsend
  · cases hsend
  · rw [resendAll_heard, Except.ok.inj hsend]

end Sender

section Sessions

/-- Data records for which exactly the room remains may be sent again. -/
theorem resendable_data
    {s : FileReceiver} {rs : List FileRecord}
    (hdata : ∀ r ∈ rs, r.kind = .data)
    (hack : AllAcknowledged s rs)
    (hroom : s.ctx.recvBufRest.toNat =
      (rs.flatMap FileRecord.bytes).length) :
    Resendable serverWriteFileRecord (· = .errorNone) Overfilled
      Repeatable s rs := by
  induction rs generalizing s with
  | nil =>
      trivial
  | cons r rs ih =>
      rcases hack with ⟨hgood, hlater⟩
      rw [List.forall_mem_cons] at hdata
      have hrest := (rest_of_data s hdata.1).2 hgood
      rw [List.flatMap_cons, List.length_append, length_bytes] at hroom
      refine ⟨hgood, fun hsame => step_repeatable hsame hgood,
        fun hother => ?_, ih hdata.2 hlater (by omega)⟩
      have hsome : r.count.toNat ≠ 0 := fun hempty =>
        hother (Or.inr ⟨hdata.1, hempty⟩)
      refine ⟨List.forall_mem_cons.mpr hdata, ?_⟩
      rw [List.flatMap_cons, List.length_append, length_bytes]
      omega

variable {s : FileReceiver} {S : Session}

/-- What a session sends before the tail may be sent again. -/
theorem resendable_opening
    (hack : AllAcknowledged s S.records) :
    Resendable serverWriteFileRecord (· = .errorNone) Overfilled
      Repeatable s S.opening := by
  obtain ⟨hok, -, hsum⟩ := (session_acknowledged_iff s S).mp hack
  obtain ⟨hhead, hdata⟩ := ((stepsMeet_append _ _ _ _ _).mp hack).1
  refine ⟨hhead, fun hsame => step_repeatable hsame hhead,
    fun hother => absurd (Or.inl S.headKind) hother,
    resendable_data S.dataKind hdata ?_⟩
  rw [step_head_accepted s S.headKind hok]
  exact hsum.symm

/-- A tail that is taken twice has delivered the text and is refused. -/
theorem step_tail_twice
    (hack : AllAcknowledged s S.records) :
    let t := runState serverWriteFileRecord s S.opening
    let t' := runState serverWriteFileRecord s S.records
    serverWriteFileRecord t S.tail = (.errorNone, t') ∧
      serverWriteFileRecord t' S.tail = (.errorInvalidRequest, t') := by
  intro t t'
  have hstep := step_tail_delivered S.tailKind (opening_spec hack).1
  have hlast : t' = (serverWriteFileRecord t S.tail).2 := by
    change runState serverWriteFileRecord s (S.opening ++ [S.tail]) = _
    rw [runState_append]
    rfl
  refine ⟨Prod.ext (by rw [hstep]) hlast.symm, ?_⟩
  apply step_tail_closed S.tailKind
  rw [hlast, hstep]

/-- The tail hands on once, however often it is taken. -/
theorem tail_resent
    (hack : AllAcknowledged s S.records) (as : List Attempt) :
    let t := runState serverWriteFileRecord s S.opening
    let out := resendAll serverWriteFileRecord (· = .errorNone) t
      [(S.tail, as)]
    (out.1 = true ↔ Through Repeatable (S.tail, as)) ∧
    (copies as ≠ 0 →
      out.2 = runState serverWriteFileRecord s S.records) ∧
    (copies as = 0 → out.2 = t) := by
  intro t out
  obtain ⟨hfirst, hsecond⟩ := step_tail_twice hack
  have hother : ¬ Repeatable S.tail := by
    simp [Repeatable, S.tailKind]
  refine ⟨?_, fun hsome => ?_, fun hnone => ?_⟩
  · have hbad := @spoils_of_refused _ _ _ serverWriteFileRecord
      (· = .errorNone) (runState serverWriteFileRecord s S.records) S.tail
      (by simp [hsecond]) (by rw [hsecond])
    have hrun := @Spoils.comes_to_end_iff _ _ _ _ _ _ _ hbad Repeatable t
      [(S.tail, as)] ⟨by rw [hfirst], fun hsame => absurd hsame hother,
        fun _ => ⟨rfl, by rw [hfirst]⟩, trivial⟩
    rw [hrun.1, List.forall_mem_singleton]
  · change (resendAll serverWriteFileRecord _ t [(S.tail, as)]).2 = _
    rw [state_resendAll_singleton, state_resend_of_kept hsome, hfirst]
    rw [hfirst, hsecond]
  · change (resendAll serverWriteFileRecord _ t [(S.tail, as)]).2 = _
    rw [state_resendAll_singleton, state_resend, hnone]
    rfl

/--
A session over a line that loses messages. The sender comes to the end exactly
when every record gets through. The receiver ends as behind the session itself
if the records before the tail get through and the tail is taken at least once,
and hands nothing on otherwise.
-/
theorem session_resent
    (hack : AllAcknowledged s S.records)
    {front : List (FileRecord × List Attempt)}
    (hfront : front.map Prod.fst = S.opening) (as : List Attempt) :
    let plan := front ++ [(S.tail, as)]
    let out := resendAll serverWriteFileRecord (· = .errorNone) s plan
    let served := (∀ x ∈ front, Through Repeatable x) ∧ copies as ≠ 0
    (out.1 = true ↔ ∀ x ∈ plan, Through Repeatable x) ∧
    (served → out.2 = runState serverWriteFileRecord s S.records) ∧
    (¬ served → out.2.printed = s.printed) := by
  intro plan out served
  have hopening := resendable_opening hack
  rw [← hfront] at hopening
  obtain ⟨hend, hstate⟩ := overfilled_spoils.comes_to_end_iff hopening
  rw [hfront] at hstate
  obtain ⟨hreported, hsome, hnone⟩ := tail_resent hack as
  have hquiet : ∀ r ∈ S.opening, r.kind ≠ .tail := by
    rw [Session.opening, List.forall_mem_cons, S.headKind]
    refine ⟨by simp, fun r hr => ?_⟩
    rw [S.dataKind r hr]
    simp
  have hsplit : out = _ := resendAll_append s front [(S.tail, as)]
  rw [List.forall_mem_append, List.forall_mem_singleton]
  by_cases hthrough : ∀ x ∈ front, Through Repeatable x
  · rw [if_pos (hend.mpr hthrough), hstate (hend.mpr hthrough)] at hsplit
    rw [hsplit]
    refine ⟨hreported.trans (and_iff_right hthrough).symm,
      fun hserved => hsome hserved.2, fun hlost => ?_⟩
    have hzero : copies as = 0 := by
      by_contra hne
      exact hlost ⟨hthrough, hne⟩
    rw [hnone hzero, printed_run s hquiet]
  · rw [if_neg (mt hend.mp hthrough)] at hsplit
    rw [hsplit]
    refine ⟨?_, fun hserved => absurd hserved.1 hthrough, fun _ => ?_⟩
    · constructor
      · exact fun hdone => absurd (hend.mp hdone) hthrough
      · exact fun hall => absurd hall.1 hthrough
    · rw [state_resendAll]
      refine printed_run s fun r hr => hquiet r ?_
      rw [← hfront]
      exact mem_of_mem_inputsTaken hr

end Sessions

section Bus

/-- The request of a transaction with this unit. -/
def Transaction.asked : Transaction → Option (UInt8 × Request)
  | .ours unit r => some (unit, r)
  | _ => none

/-- The device asked to take an element of a chunk list. -/
def askChunk (unit : UInt8) (v : DeviceView) (chunk : Nat × List UInt8) :
    List (List UInt8) × DeviceView :=
  v.meet nmbsCrcCalc (.ours unit (chunkRequest chunk))

/-- The frames answer a file request, and not with an exception. -/
def Affirms (frames : List (List UInt8)) : Prop :=
  ∃ frame ∈ frames, frame[1]? = some 21

instance (frames : List (List UInt8)) : Decidable (Affirms frames) := by
  unfold Affirms
  exact inferInstance

/-- The element is the one that opens the transfer. -/
def Opens (chunk : Nat × List UInt8) : Prop :=
  chunk.1 = mobdusFileSendHeadRecNum

/-- What the device becomes is what the receiver becomes. -/
theorem receiver_of_askChunk
    (unit : UInt8) (v : DeviceView) {chunk : Nat × List UInt8}
    (hentry : (chunkEntry chunk).WellFormed) :
    (askChunk unit v chunk).2.receiver =
      (serverWriteFileRecord v.receiver
        (droppingCarrier.record chunk)).2 := by
  rw [askChunk, DeviceView.meet, serve_chunkRequest v hentry]

/-- The answer tells whether the record has been acknowledged. -/
theorem affirms_askChunk
    {unit : UInt8} (hunit : unit ≠ nmbsBroadcastAddress)
    (v : DeviceView) {chunk : Nat × List UInt8}
    (hentry : (chunkEntry chunk).WellFormed) :
    Affirms (askChunk unit v chunk).1 ↔
      (serverWriteFileRecord v.receiver
        (droppingCarrier.record chunk)).1 = .errorNone := by
  rw [askChunk, DeviceView.meet, serve_chunkRequest v hentry]
  dsimp only
  rw [answerFrames, if_neg hunit, Affirms]
  simp only [List.mem_singleton, exists_eq_left]
  split
  · rename_i hack
    simp only [hack, iff_true]
    rfl
  · rename_i hrefused
    simp only [hrefused, iff_false]
    simp [withCheck, Reply.body, Request.fc, chunkRequest]

/-- Traffic with other units and broken frames do not count. -/
theorem asked_run
    {unit : UInt8} {ts : List Transaction}
    {chunks : List (Nat × List UInt8)}
    (hasked : ts.filterMap Transaction.asked =
      chunks.map fun chunk => (unit, chunkRequest chunk))
    (v : DeviceView) :
    (runReplies (DeviceView.meet nmbsCrcCalc) v ts).flatten =
        (runReplies (askChunk unit) v chunks).flatten ∧
      runState (DeviceView.meet nmbsCrcCalc) v ts =
        runState (askChunk unit) v chunks := by
  refine selected_run ?_ ?_ hasked v
  · intro v t hnone
    cases t with
    | ours =>
        cases hnone
    | others | refused | damaged | cut =>
        rfl
  · intro v t chunk hsome
    cases t with
    | ours =>
        obtain ⟨rfl, rfl⟩ := Prod.mk.inj (Option.some.inj hsome)
        rfl
    | others | refused | damaged | cut =>
        cases hsome

variable {file : List UInt8}

/-- Only the head of a file may be taken twice. -/
theorem repeatable_prepared_iff
    (heven : file.length % 2 = 0)
    (hfits : file.length ≤ modbusFileSendDataRecvBufSize)
    {chunk : Nat × List UInt8} (hchunk : chunk ∈ preparedList file) :
    Repeatable (droppingCarrier.record chunk) ↔ Opens chunk := by
  have hfew := few_slices hfits
  rcases List.mem_cons.mp hchunk with rfl | hchunk
  · simp only [Opens, iff_true]
    exact Or.inl rfl
  · rcases List.mem_append.mp hchunk with hslice | htail
    · obtain ⟨⟨slice, i⟩, hmem, rfl⟩ := List.mem_map.mp hslice
      have hi := (List.mem_zipIdx hmem).2.1
      have hslice := List.fst_mem_of_mem_zipIdx hmem
      have hkind : (droppingCarrier.record (i, slice)).kind = .data :=
        sliceRecords_kind droppingCarrier file
          (Nat.le_trans hfew (by decide)) _
          (List.mem_map.mpr ⟨_, hmem, rfl⟩)
      have hbytes : (droppingCarrier.record (i, slice)).bytes = slice :=
        (record_bytes droppingCarrier
          (even_length_of_mem_slices rfl heven hslice)
          (length_le_of_mem_slices hslice)).1
      have hsome : (droppingCarrier.record (i, slice)).count.toNat ≠ 0 := by
        intro hempty
        have hlength := length_bytes (droppingCarrier.record (i, slice))
        rw [hbytes, hempty] at hlength
        exact ne_nil_of_mem_slices (by decide) hslice
          (List.eq_nil_of_length_eq_zero hlength)
      simp only [Repeatable, hkind, hsome, Opens, reduceCtorEq, and_false,
        or_self, false_iff, mobdusFileSendHeadRecNum]
      omega
    · obtain rfl := List.mem_singleton.mp htail
      have hkind : (droppingCarrier.record
          (mobdusFileSendTailRecNum, [])).kind = .tail := by
        rfl
      simp only [Repeatable, hkind, Opens, reduceCtorEq, false_and,
        or_self, false_iff]
      decide

variable {front : List ((Nat × List UInt8) × List Attempt)}
variable {last : (Nat × List UInt8) × List Attempt}

/-- An element gets through exactly if its record does. -/
theorem through_record_iff
    (heven : file.length % 2 = 0)
    (hfits : file.length ≤ modbusFileSendDataRecvBufSize)
    {plan : List ((Nat × List UInt8) × List Attempt)}
    (hplan : ∀ x ∈ plan, x.1 ∈ preparedList file) :
    (∀ x ∈ plan.map (Prod.map droppingCarrier.record id),
      Through Repeatable x) ↔ ∀ x ∈ plan, Through Opens x := by
  rw [List.forall_mem_map]
  refine forall₂_congr fun x hx => ?_
  rw [Through, Through, Prod.map_fst, Prod.map_snd, id,
    repeatable_prepared_iff heven hfits (hplan x hx)]

/-- A sender whose device takes the records of a file. -/
theorem file_resent
    {unit : UInt8} (hunit : unit ≠ nmbsBroadcastAddress)
    (heven : file.length % 2 = 0)
    (hfits : file.length ≤ modbusFileSendDataRecvBufSize)
    (hplan : (front ++ [last]).map Prod.fst = preparedList file)
    (v : DeviceView) :
    let out := resendAll (askChunk unit) Affirms v (front ++ [last])
    let served := (∀ x ∈ front, Through Opens x) ∧ copies last.2 ≠ 0
    (out.1 = true ↔ ∀ x ∈ front ++ [last], Through Opens x) ∧
    (served → out.2.receiver = runState serverWriteFileRecord v.receiver
      ((preparedList file).map droppingCarrier.record)) ∧
    (¬ served → out.2.receiver.printed = v.receiver.printed) := by
  intro out served
  have hmem : ∀ x ∈ front ++ [last], x.1 ∈ preparedList file := by
    intro x hx
    rw [← hplan]
    exact List.mem_map_of_mem hx
  obtain ⟨S, hack, hrecords, -, -⟩ :=
    prepared_acknowledged heven hfits v.receiver
  have hsplit : S.opening ++ [S.tail] =
      (front.map (Prod.map droppingCarrier.record id)).map Prod.fst ++
        [droppingCarrier.record last.1] := by
    rw [← Session.records, hrecords, ← hplan, List.map_map, List.map_map,
      List.map_append]
    rfl
  obtain ⟨hopening, htail⟩ := List.append_inj' hsplit rfl
  have hsent : (front ++ [last]).map (Prod.map droppingCarrier.record id) =
      front.map (Prod.map droppingCarrier.record id) ++
        [(S.tail, last.2)] := by
    rw [List.map_append, List.singleton_inj.mp htail]
    rfl
  have hdevice := @resendAll_projected _ _ _ _ _ _ (askChunk unit)
    serverWriteFileRecord Affirms (· = .errorNone) DeviceView.receiver
    droppingCarrier.record _ _ (front ++ [last])
    (fun chunk hchunk v => affirms_askChunk hunit v
      (prepared_wellFormed heven hfits (hplan ▸ hchunk)))
    (fun chunk hchunk v => receiver_of_askChunk unit v
      (prepared_wellFormed heven hfits (hplan ▸ hchunk))) v
  have hthrough := through_record_iff heven hfits fun x hx =>
    hmem x (List.mem_append_left [last] hx)
  obtain ⟨hreported, hserved, hlost⟩ :=
    session_resent hack hopening.symm last.2
  rw [← hsent] at hreported hserved hlost
  rw [hdevice, through_record_iff heven hfits hmem] at hreported
  rw [hdevice, hrecords, hthrough] at hserved
  rw [hdevice, hthrough] at hlost
  exact ⟨hreported, hserved, hlost⟩

/-- The requests that arrive have one record each. -/
theorem single_of_asked
    (heven : file.length % 2 = 0)
    (hfits : file.length ≤ modbusFileSendDataRecvBufSize)
    {unit : UInt8} {ts : List Transaction}
    {chunks : List (Nat × List UInt8)}
    (hchunks : ∀ chunk ∈ chunks, chunk ∈ preparedList file)
    (hasked : ts.filterMap Transaction.asked =
      chunks.map fun chunk => (unit, chunkRequest chunk)) :
    ∀ t ∈ ts, t.Single := by
  intro t ht
  cases t with
  | ours target r =>
      have hmem : (target, r) ∈
          chunks.map fun chunk => (unit, chunkRequest chunk) := by
        rw [← hasked]
        exact List.mem_filterMap.mpr ⟨_, ht, rfl⟩
      obtain ⟨chunk, hchunk, hrequest⟩ := List.mem_map.mp hmem
      obtain ⟨rfl, rfl⟩ := Prod.mk.inj hrequest
      exact single_of_chunk heven hfits (hchunks chunk hchunk)
  | others | refused | damaged | cut =>
      trivial

variable {γ : Type}

/--
A file over a bus that loses requests and responses. The sender sends each
record again until it hears an answer; what it hears is what the device sends.
It comes to the end exactly when it hears of every record and none but the head
has been taken twice. If the records before the tail get through so and the tail
is taken at least once, the receiver has taken the file and handed on one text;
otherwise it has handed on nothing.
-/
theorem file_over_lossy_bus
    (pin : OutputPin γ) {unit : UInt8} {pause : Int32}
    (hunit : unit ≠ nmbsBroadcastAddress)
    (hbt : 100 < pause) (hrt : pause ≤ 200) (d : PortDevice γ)
    (heven : file.length % 2 = 0)
    (hfits : file.length ≤ modbusFileSendDataRecvBufSize)
    (hplan : (front ++ [last]).map Prod.fst = preparedList file)
    {ts : List Transaction}
    (hvalid : ∀ t ∈ ts, t.Valid (portConf pin unit))
    (hasked : ts.filterMap Transaction.asked =
      (inputsTaken (askChunk unit) Affirms (viewOf pin d)
        (front ++ [last])).map fun chunk => (unit, chunkRequest chunk)) :
    let v := viewOf pin d
    let plan := front ++ [last]
    let served := (∀ x ∈ front, Through Opens x) ∧ copies last.2 ≠ 0
    ∃ s' : Server (PortDevice γ),
      runDialogue (respond pause)
          (times (nmbsServerPoll (portConf pin unit)) ts.length
            (portServer d))
          ⟨[], ts.flatMap (Transaction.bursts nmbsCrcCalc), []⟩ =
        (some (ts.map Transaction.status, s'),
          ⟨[], [], (runReplies (askChunk unit) v
            (inputsTaken (askChunk unit) Affirms v plan)).flatten⟩) ∧
      ((resendAll (askChunk unit) Affirms v plan).1 = true ↔
        ∀ x ∈ plan, Through Opens x) ∧
      ((resendAll (askChunk unit) Affirms v plan).1 = true → served) ∧
      (served → TookFile file d.receiver s'.device.receiver) ∧
      (¬ served →
        s'.device.receiver.printed = d.receiver.printed) := by
  intro v plan served
  have hchunks : ∀ chunk ∈ inputsTaken (askChunk unit) Affirms v plan,
      chunk ∈ preparedList file := by
    intro chunk hchunk
    rw [← hplan]
    exact mem_of_mem_inputsTaken hchunk
  obtain ⟨s', hrun, hview⟩ := conversation_with_device hbt hrt d hvalid
    (single_of_asked heven hfits hchunks hasked)
  obtain ⟨hframes, hdevice⟩ := asked_run hasked v
  obtain ⟨hreported, hserved, hlost⟩ :=
    file_resent hunit heven hfits hplan v
  rw [hdevice, ← state_resendAll] at hview
  rw [← hview] at hserved hlost
  rw [hframes] at hrun
  refine ⟨s', hrun, hreported, fun hdone => ?_,
    fun h => receiver_of_records heven hfits (hserved h), hlost⟩
  have hall := hreported.mp hdone
  rw [List.forall_mem_append, List.forall_mem_singleton] at hall
  exact ⟨hall.1, copies_ne_zero_of_heard hall.2.1⟩

/-- Two letters; an answer to the head and a request with data get lost. -/
def letterFront : List ((Nat × List UInt8) × List Attempt) :=
  [((9998, headerBytes 2 1), [.replyLost, .heard]),
    ((0, [0x41, 0x42]), [.requestLost, .heard])]

/-- The tail of the letters, which is heard of at once. -/
def letterTail : (Nat × List UInt8) × List Attempt :=
  ((9999, []), [.heard])

/-- What happens on the bus then; the sender waits for two idle polls. -/
def lossyLetters : List Transaction :=
  [.ours 1 (chunkRequest (9998, headerBytes 2 1)), .idle, .idle,
    .ours 1 (chunkRequest (9998, headerBytes 2 1)),
    .cut 1 (chunkRequest (0, [0x41, 0x42])) 3, .idle, .idle,
    .ours 1 (chunkRequest (0, [0x41, 0x42])),
    .ours 1 (chunkRequest (9999, []))]

theorem lossyLetters_taken :
    inputsTaken (askChunk 1) Affirms
      (viewOf OutputPin.level ⟨darkBoard, FileReceiver.initial⟩)
      (letterFront ++ [letterTail]) =
        [(9998, headerBytes 2 1), (9998, headerBytes 2 1),
          (0, [0x41, 0x42]), (9999, [])] := by
  decide +kernel

/-- The letters arrive, and the sender reports so. -/
theorem file_over_lossy_bus_letters :
    (resendAll (askChunk 1) Affirms
        (viewOf OutputPin.level ⟨darkBoard, FileReceiver.initial⟩)
        (letterFront ++ [letterTail])).1 = true ∧
      ∃ (s' : Server (PortDevice GpioPinState))
        (frames : List (List UInt8)),
        runDialogue (respond 150)
            (times (nmbsServerPoll (portConf OutputPin.level 1)) 9
              (portServer ⟨darkBoard, FileReceiver.initial⟩))
            ⟨[], lossyLetters.flatMap (Transaction.bursts nmbsCrcCalc),
              []⟩ =
          (some ([.errorNone, .errorNone, .errorNone, .errorNone,
            .errorTimeout, .errorNone, .errorNone, .errorNone, .errorNone],
            s'), ⟨[], [], frames⟩) ∧
        TookFile [0x41, 0x42] FileReceiver.initial s'.device.receiver := by
  have hfits : [(0x41 : UInt8), 0x42].length ≤
      modbusFileSendDataRecvBufSize := by
    decide
  have hvalid : ∀ t ∈ lossyLetters,
      t.Valid (portConf OutputPin.level 1) := by
    intro t ht
    have hours : ∀ chunk ∈ preparedList [0x41, 0x42],
        (Transaction.ours 1 (chunkRequest chunk)).Valid
          (portConf OutputPin.level 1) :=
      fun chunk hchunk => valid_of_chunk OutputPin.level 1 rfl hfits hchunk
    simp only [lossyLetters, List.mem_cons, List.not_mem_nil, or_false] at ht
    rcases ht with rfl | rfl | rfl | rfl | rfl | rfl | rfl | rfl | rfl
    · exact hours _ (List.mem_cons_self ..)
    · exact valid_idle _
    · exact valid_idle _
    · exact hours _ (List.mem_cons_self ..)
    · refine ⟨(hours (0, [0x41, 0x42]) (by decide)).2.1, ?_⟩
      rw [requestFrame, withCheck, List.length_append, length_wireBytes]
      decide
    · exact valid_idle _
    · exact valid_idle _
    · exact hours _ (by decide)
    · exact hours _ (by decide)
  obtain ⟨s', hrun, hreported, -, hserved, -⟩ :=
    @file_over_lossy_bus [0x41, 0x42] letterFront letterTail _
      OutputPin.level 1 150 (by decide) (by decide) (by decide)
      ⟨darkBoard, FileReceiver.initial⟩ rfl hfits rfl lossyLetters hvalid
      (by rw [lossyLetters_taken]; rfl)
  have hfront : ∀ x ∈ letterFront, Through Opens x := by
    intro x hx
    rcases hx with _ | ⟨_, _ | ⟨_, hx⟩⟩
    · exact ⟨by decide, Or.inr rfl⟩
    · exact ⟨by decide, Or.inl rfl⟩
    · cases hx
  have htail : Through Opens letterTail :=
    ⟨by decide, Or.inl rfl⟩
  refine ⟨hreported.mpr ?_, s', _, hrun, hserved ⟨hfront, by decide⟩⟩
  rw [List.forall_mem_append, List.forall_mem_singleton]
  exact ⟨hfront, htail⟩

end Bus

end Port
end ModbusRtu
