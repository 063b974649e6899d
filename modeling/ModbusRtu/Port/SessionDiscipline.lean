import ModbusRtu.Port.SessionLedger

/-!
# Memory safety and session discipline of the file receiver

Two consequences of the ledger invariant for every sequence of calls.

The first is memory safety. The write pointer of an open transfer is an even
offset into the static buffer, the remaining bytes end before the announced
length, and so does every halfword store of the register loop. Seen from the
memory: no call changes a byte from the announced length on.

The second is the discipline of sessions. Whether a transfer is open is not
stored in one field; it is the write pointer not being NULL. A data record or
a tail succeeds only inside a transfer, a tail closes it whatever its outcome,
and nothing but an accepted head opens one. A text is handed on for each
successful tail and for nothing else.
-/

namespace ModbusRtu
namespace Port

open Kernel

section MemorySafety

/-- Pointer, buffer and remaining bytes agree with the last accepted head. -/
def ContextBounded (s : FileReceiver) (l : Ledger) : Prop :=
  (∀ ptr, s.ctx.recvBufPtr = some ptr →
    s.ctx.recvBuf = modbusFileSendDataRecvBuf ∧
    ptr % 2 = 0 ∧
    ∃ h, l.head = some h ∧
      ptr + s.ctx.recvBufRest.toNat ≤ h.header.totalLen.toNat ∧
      h.header.totalLen.toNat ≤ modbusFileSendDataRecvBufSize) ∧
  (s.ctx.recvBufPtr = none → s.ctx.recvBufRest = 0)

/--
The register loop of a data record stores inside the announced length and
counts two bytes down for every store without wrapping.
-/
def LoopInsideBuffer
    (s : FileReceiver) (l : Ledger) (r : FileRecord) : Prop :=
  ∀ ptr, s.ctx.recvBufPtr = some ptr →
    let loop :=
      dataChunkLoop ptr r.registers 0 r.count.toNat s.ctx.recvBufRest
    ∃ h, l.head = some h ∧
      (∀ st ∈ loop.stores, st.addr + 2 ≤ h.header.totalLen.toNat) ∧
      loop.rest.toNat + 2 * loop.stores.length =
        s.ctx.recvBufRest.toNat

/--
The call leaves every byte from the announced length on as it was; before the
first accepted head it leaves the whole memory.
-/
def StoresBelowEnd
    (s : FileReceiver) (l : Ledger) (r : FileRecord) : Prop :=
  ∀ k, (∀ h, l.head = some h → h.header.totalLen.toNat ≤ k) →
    (serverWriteFileRecord s r).2.mem k = s.mem k

/-- The state in which the tail would find that recv_buf is NULL. -/
def TailLacksBuffer (s : FileReceiver) : Prop :=
  s.ctx.recvBufPtr ≠ none ∧ s.ctx.recvBufRest = 0 ∧ s.ctx.recvBuf = none

theorem flatMap_bytes_even (rs : List FileRecord) :
    (rs.flatMap FileRecord.bytes).length % 2 = 0 := by
  induction rs with
  | nil =>
      rfl
  | cons r rs ih =>
      rw [List.flatMap_cons, List.length_append, length_bytes]
      omega

theorem contextBounded_of_ledgerInv
    {s : FileReceiver} {l : Ledger}
    (hinv : LedgerInv s l) :
    ContextBounded s l := by
  refine ⟨?_, hinv.restNull⟩
  intro ptr hptr
  obtain ⟨h, hopen⟩ := hinv.opened ptr hptr
  have heven : ptr % 2 = 0 := by
    rw [← hopen.offset]
    exact flatMap_bytes_even l.acked
  exact
    ⟨hopen.static, heven, h, hopen.head, hopen.bound,
      hopen.announced.2.2⟩

theorem loopInsideBuffer_of_ledgerInv
    {s : FileReceiver} {l : Ledger}
    (hinv : LedgerInv s l) (r : FileRecord) :
    LoopInsideBuffer s l r := by
  intro ptr hptr
  obtain ⟨h, hopen⟩ := hinv.opened ptr hptr
  have hbound := hopen.bound
  obtain ⟨hstores, hrest, _⟩ :=
    dataChunkLoop_spec ptr r.registers 0 r.count.toNat s.ctx.recvBufRest
  have hfit := (fitting_le r.count.toNat s.ctx.recvBufRest).2
  refine ⟨h, hopen.head, ?_, ?_⟩
  · intro st hst
    rw [hstores] at hst
    obtain ⟨j, hj, haddr⟩ := addr_of_mem_consecutiveStores hst
    simp only [List.length_map, List.length_range'] at hj
    omega
  · rw [hstores, length_consecutiveStores, hrest]
    simp only [List.length_map, List.length_range']
    omega

theorem storesBelowEnd_of_ledgerInv
    {s : FileReceiver} {l : Ledger}
    (hinv : LedgerInv s l) (r : FileRecord) :
    StoresBelowEnd s l r := by
  intro k hk
  have hout := serverWriteFileRecord_outcome s r
  generalize serverWriteFileRecord s r = out at hout ⊢
  cases hout with
  | dataStored hkind ptr rest hptr hlen hfit hrest =>
      obtain ⟨h, hopen⟩ := hinv.opened ptr hptr
      have hbound := hopen.bound
      have hend := hk h hopen.head
      apply storePayload_outside
      rw [length_payload]
      omega
  | dataCut hkind ptr rest hptr hlen hcut hrest =>
      obtain ⟨h, hopen⟩ := hinv.opened ptr hptr
      have hbound := hopen.bound
      have hend := hk h hopen.head
      apply storePayload_outside
      rw [List.length_take, length_payload]
      omega
  | outOfRange | headRejected | headAccepted | tailDelivered
  | tailIncomplete | tailWithoutBuffer | tailClosed | dataClosed
  | dataTooLong =>
      rfl

/--
File-receive context invariant: after every sequence of calls the context is
bounded by the last accepted head, every further call stores inside the
announced length and changes no byte from there on, and no tail finds a NULL
buffer in an open transfer.
-/
theorem context_invariant (calls : List FileRecord) :
    ContextBounded (receiverAfter calls) (ledgerAfter calls) ∧
      (∀ r, LoopInsideBuffer (receiverAfter calls)
        (ledgerAfter calls) r) ∧
      (∀ r, StoresBelowEnd (receiverAfter calls)
        (ledgerAfter calls) r) ∧
      ¬ TailLacksBuffer (receiverAfter calls) := by
  have hinv := ledgerInv_after calls
  refine
    ⟨contextBounded_of_ledgerInv hinv,
      loopInsideBuffer_of_ledgerInv hinv,
      storesBelowEnd_of_ledgerInv hinv, ?_⟩
  rintro ⟨hptr, _, hbuf⟩
  obtain ⟨ptr, hsome⟩ := Option.ne_none_iff_exists'.mp hptr
  obtain ⟨h, hopen⟩ := hinv.opened ptr hsome
  rw [hopen.static] at hbuf
  cases hbuf

end MemorySafety

section Discipline

/-- The call is answered without an error. -/
def Acknowledged (s : FileReceiver) (r : FileRecord) : Prop :=
  (serverWriteFileRecord s r).1 = .errorNone

instance (s : FileReceiver) (r : FileRecord) :
    Decidable (Acknowledged s r) := by
  unfold Acknowledged
  exact inferInstance

/-- The record only makes sense inside a transfer. -/
def FileRecord.NeedsSession (r : FileRecord) : Prop :=
  r.kind = .data ∨ r.kind = .tail

/-- The exact conditions under which a call is answered without an error. -/
theorem acknowledged_iff (s : FileReceiver) (r : FileRecord) :
    Acknowledged s r ↔
      (r.kind = .head ∧ r.AnnouncesTransfer) ∨
      (r.kind = .tail ∧ s.ctx.recvBufPtr ≠ none ∧
        s.ctx.recvBufRest = 0 ∧ s.ctx.recvBuf ≠ none) ∨
      (r.kind = .data ∧ s.ctx.recvBufPtr ≠ none ∧
        r.count.toNat ≤ 120 ∧
        2 * r.count.toNat ≤ s.ctx.recvBufRest.toNat) := by
  have hout := serverWriteFileRecord_outcome s r
  simp only [Acknowledged]
  generalize serverWriteFileRecord s r = out at hout ⊢
  cases hout with
  | outOfRange hkind =>
      simp [hkind]
  | headRejected hkind hbad =>
      simp [hkind, hbad]
  | headAccepted hkind hok =>
      simp [hkind, hok]
  | tailDelivered hkind ptr buf hptr hrest hbuf =>
      simp [hkind, hptr, hrest, hbuf]
  | tailIncomplete hkind hptr hrest =>
      simp [hkind, hrest]
  | tailWithoutBuffer hkind hptr hrest hbuf =>
      simp [hkind, hbuf]
  | tailClosed hkind hptr | dataClosed hkind hptr =>
      simp [hkind, hptr]
  | dataTooLong hkind hlen =>
      simp [hkind, Nat.not_le.mpr hlen]
  | dataStored hkind ptr rest hptr hlen hfit hrest =>
      simp [hkind, hptr, hlen, hfit]
  | dataCut hkind ptr rest hptr hlen hcut hrest =>
      simp [hkind, Nat.not_le.mpr hcut]

/-- An acknowledged data or tail record finds the write pointer set. -/
theorem pointer_of_acknowledged
    {s : FileReceiver} {r : FileRecord}
    (hneeds : r.NeedsSession)
    (hack : Acknowledged s r) :
    ∃ ptr, s.ctx.recvBufPtr = some ptr := by
  rcases (acknowledged_iff s r).mp hack with
    ⟨hkind, _⟩ | ⟨_, hptr, _⟩ | ⟨_, hptr, _⟩
  · simp [FileRecord.NeedsSession, hkind] at hneeds
  · exact Option.ne_none_iff_exists'.mp hptr
  · exact Option.ne_none_iff_exists'.mp hptr

/-- Every tail leaves the write pointer NULL. -/
theorem pointer_null_after_tail
    {s : FileReceiver} {r : FileRecord}
    (htail : r.kind = .tail) :
    (serverWriteFileRecord s r).2.ctx.recvBufPtr = none := by
  have hout := serverWriteFileRecord_outcome s r
  generalize serverWriteFileRecord s r = out at hout ⊢
  cases hout with
  | tailDelivered | tailIncomplete | tailWithoutBuffer | tailClosed =>
      rfl
  | outOfRange hkind | headRejected hkind | headAccepted hkind
  | dataClosed hkind | dataTooLong hkind | dataStored hkind
  | dataCut hkind =>
      simp [htail] at hkind

/-- Nothing but an accepted head sets a NULL write pointer. -/
theorem pointer_null_step
    (s : FileReceiver) (r : FileRecord)
    (hnull : s.ctx.recvBufPtr = none)
    (hnohead : ¬ (r.kind = .head ∧ Acknowledged s r)) :
    (serverWriteFileRecord s r).2.ctx.recvBufPtr = none := by
  have hout := serverWriteFileRecord_outcome s r
  simp only [Acknowledged] at hnohead
  generalize serverWriteFileRecord s r = out at hout hnohead ⊢
  cases hout with
  | headAccepted hkind hok =>
      exact False.elim (hnohead ⟨hkind, rfl⟩)
  | tailDelivered | tailIncomplete | tailWithoutBuffer | tailClosed =>
      rfl
  | dataStored hkind ptr rest hptr | dataCut hkind ptr rest hptr =>
      rw [hnull] at hptr
      cases hptr
  | outOfRange | headRejected | dataClosed | dataTooLong =>
      exact hnull

/-- Rejected heads and record numbers out of range change nothing at all. -/
theorem unchanged_of_not_opening
    {s : FileReceiver} {r : FileRecord}
    (h : (r.kind = .head ∧ ¬ Acknowledged s r) ∨
      mobdusFileSendTailRecNum < r.recordNumber.toNat) :
    (serverWriteFileRecord s r).2 = s := by
  rcases h with ⟨hkind, hrej⟩ | hrange
  · have hbad : ¬ r.AnnouncesTransfer := by
      intro hok
      exact hrej ((acknowledged_iff s r).mpr (Or.inl ⟨hkind, hok⟩))
    rw [step_head_rejected s hkind hbad]
  · have hgt : r.recordNumber.toNat > mobdusFileSendTailRecNum := hrange
    simp only [serverWriteFileRecord, if_pos hgt]

/-- A call that is refused hands nothing on. -/
theorem printed_of_refused
    {s : FileReceiver} {r : FileRecord}
    (hrefused : ¬ Acknowledged s r) :
    (serverWriteFileRecord s r).2.printed = s.printed := by
  have hout := serverWriteFileRecord_outcome s r
  rw [Acknowledged] at hrefused
  generalize serverWriteFileRecord s r = out at hout hrefused ⊢
  cases hout with
  | tailDelivered =>
      exact absurd rfl hrefused
  | outOfRange | headRejected | headAccepted | tailIncomplete
  | tailWithoutBuffer | tailClosed | dataClosed | dataTooLong
  | dataStored | dataCut =>
      rfl

/-- One call hands a text on exactly if it is a successful tail. -/
theorem printed_length_step
    (s : FileReceiver) (l : Ledger) (r : FileRecord)
    (hcount : s.printed.length = l.tails) :
    (serverWriteFileRecord s r).2.printed.length =
      (l.note (r, (serverWriteFileRecord s r).1)).tails := by
  have hout := serverWriteFileRecord_outcome s r
  generalize serverWriteFileRecord s r = out at hout ⊢
  cases hout with
  | tailDelivered hkind =>
      simp [Ledger.note, hkind, hcount]
  | outOfRange hkind | headRejected hkind | headAccepted hkind
  | tailIncomplete hkind | tailWithoutBuffer hkind | tailClosed hkind
  | dataClosed hkind | dataTooLong hkind | dataStored hkind
  | dataCut hkind =>
      simpa [Ledger.note, hkind] using hcount

/-- The texts handed on are as many as the successful tails. -/
theorem printed_length_after (calls : List FileRecord) :
    (receiverAfter calls).printed.length = (ledgerAfter calls).tails := by
  apply observed_run (G := fun _ _ => True)
    (R := fun (s : FileReceiver) (l : Ledger) =>
      s.printed.length = l.tails)
  · intro s l r hcount _
    exact printed_length_step s l r hcount
  · rfl
  · exact stepsMeet_of_forall _ (fun _ _ => trivial) _ _

/--
Session discipline, for every sequence of calls from reset: data and tail
records succeed only after an accepted head with no tail behind it; successful
tails never outnumber accepted heads and each head is delivered at most once;
as many texts have been handed on as tails have succeeded, and a refused call
hands nothing on; after any tail every data and tail record is refused until a
head is accepted; rejected heads and record numbers above 9999 change nothing.
-/
theorem session_discipline (calls : List FileRecord) :
    (∀ r : FileRecord, r.NeedsSession →
      Acknowledged (receiverAfter calls) r →
      (ledgerAfter calls).head ≠ none ∧
        (ledgerAfter calls).closed = false) ∧
    (ledgerAfter calls).tails ≤ (ledgerAfter calls).heads ∧
    (ledgerAfter calls).deliveries ≤ 1 ∧
    (receiverAfter calls).printed.length = (ledgerAfter calls).tails ∧
    (∀ r : FileRecord, ¬ Acknowledged (receiverAfter calls) r →
      (serverWriteFileRecord (receiverAfter calls) r).2.printed =
        (receiverAfter calls).printed) ∧
    (∀ (t : FileRecord) (later : List FileRecord), t.kind = .tail →
      StepsMeet serverWriteFileRecord
        (fun s r => ¬ (r.kind = .head ∧ Acknowledged s r))
        (receiverAfter (calls ++ [t])) later →
      ∀ r : FileRecord, r.NeedsSession →
        ¬ Acknowledged (receiverAfter (calls ++ t :: later)) r) ∧
    (∀ r : FileRecord,
      (r.kind = .head ∧ ¬ Acknowledged (receiverAfter calls) r) ∨
        mobdusFileSendTailRecNum < r.recordNumber.toNat →
      (serverWriteFileRecord (receiverAfter calls) r).2 =
        receiverAfter calls) := by
  have hinv := ledgerInv_after calls
  refine ⟨?_, hinv.tailsLe, hinv.deliveriesLe, printed_length_after calls,
    fun r hrefused => printed_of_refused hrefused, ?_, ?_⟩
  · intro r hneeds hack
    obtain ⟨ptr, hptr⟩ := pointer_of_acknowledged hneeds hack
    obtain ⟨h, hopen⟩ := hinv.opened ptr hptr
    exact ⟨by simp [hopen.head], hopen.notClosed⟩
  · intro t later htail hlater r hneeds hack
    have hafter :
        (receiverAfter (calls ++ [t])).ctx.recvBufPtr = none := by
      rw [receiverAfter_append]
      exact pointer_null_after_tail htail
    have hnull :=
      invariant_run
        (P := fun s : FileReceiver => s.ctx.recvBufPtr = none)
        pointer_null_step hafter hlater
    rw [← receiverAfter_append, List.append_assoc,
      List.singleton_append] at hnull
    obtain ⟨ptr, hptr⟩ := pointer_of_acknowledged hneeds hack
    rw [hnull] at hptr
    cases hptr
  · intro r hr
    exact unchanged_of_not_opening hr

end Discipline

end Port
end ModbusRtu
