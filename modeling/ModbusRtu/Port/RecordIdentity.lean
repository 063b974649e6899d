import ModbusRtu.Port.AcknowledgedContent

/-!
# What the receiver sees of a record's identity

The sender numbers its data records, announces how many there are and tags
every record with a file number. The receiver looks at none of this: the
record number only selects the handler, the announced number of chunks is only
compared with its bound, and the file number is not used at all.

Relabelled says what may be changed in a record without the receiver noticing.
A whole run can be relabelled record by record, with the same replies and the
same receiver state at the end. So no run in which chunks were swapped,
repeated or taken from another file is told apart from an orderly one that
carries the same registers, and what a successful tail does say is limited to
the order of arrival.
-/

namespace ModbusRtu
namespace Port

open Kernel

section Relabelling

/-- The receiver cannot tell the two records apart. -/
inductive Relabelled : FileRecord → FileRecord → Prop
  | head {r r' : FileRecord}
      (hkind : r.kind = .head)
      (hkind' : r'.kind = .head)
      (hcount : r.count = r'.count)
      (htotal : r.header.totalLen = r'.header.totalLen)
      (hchunks :
        r.header.nChunks.toNat ≤ mobdusFileSendHeadRecNum ↔
          r'.header.nChunks.toNat ≤ mobdusFileSendHeadRecNum) :
      Relabelled r r'
  | data {r r' : FileRecord}
      (hkind : r.kind = .data)
      (hkind' : r'.kind = .data)
      (hcount : r.count = r'.count)
      (hregisters : ∀ i, i < r.count.toNat →
        r.registers i = r'.registers i) :
      Relabelled r r'
  | tail {r r' : FileRecord}
      (hkind : r.kind = .tail)
      (hkind' : r'.kind = .tail) :
      Relabelled r r'
  | outOfRange {r r' : FileRecord}
      (hkind : r.kind = .outOfRange)
      (hkind' : r'.kind = .outOfRange) :
      Relabelled r r'

/-- The register loop reads n registers from index i on and no others. -/
theorem dataChunkLoop_congr
    (ptr : Nat) {registers registers' : Nat → UInt16}
    (i n : Nat) (rest : UInt32)
    (hsame : ∀ j, i ≤ j → j < i + n → registers j = registers' j) :
    dataChunkLoop ptr registers i n rest =
      dataChunkLoop ptr registers' i n rest := by
  induction n generalizing i rest with
  | zero =>
      rfl
  | succ n ih =>
      have hnow := hsame i (Nat.le_refl i) (by omega)
      have hlater :=
        ih (i + 1) (rest - 2)
          (fun j hle hlt => hsame j (by omega) (by omega))
      simp only [dataChunkLoop, hnow, hlater]

theorem headChunk_relabelled
    (s : FileReceiver) {r r' : FileRecord}
    (hcount : r.count = r'.count)
    (htotal : r.header.totalLen = r'.header.totalLen)
    (hchunks :
      r.header.nChunks.toNat ≤ mobdusFileSendHeadRecNum ↔
        r'.header.nChunks.toNat ≤ mobdusFileSendHeadRecNum) :
    modbusFileSendProcessHeadChunk s r.registers r.count =
      modbusFileSendProcessHeadChunk s r'.registers r'.count := by
  simp only [FileRecord.header] at htotal hchunks
  simp only [modbusFileSendProcessHeadChunk, hcount, htotal,
    gt_iff_lt, ← Nat.not_le, hchunks]

/-- One call does not tell relabelled records apart. -/
theorem relabelled_step
    (s : FileReceiver) {r r' : FileRecord}
    (hrel : Relabelled r r') :
    serverWriteFileRecord s r = serverWriteFileRecord s r' := by
  rw [serverWriteFileRecord_route s r, serverWriteFileRecord_route s r']
  cases hrel with
  | head hkind hkind' hcount htotal hchunks =>
      rw [hkind, hkind']
      exact headChunk_relabelled s hcount htotal hchunks
  | data hkind hkind' hcount hregisters =>
      rw [hkind, hkind']
      simp only [modbusFileSendProcessDataChunk, ← hcount]
      cases s.ctx.recvBufPtr with
      | none =>
          rfl
      | some ptr =>
          have hloop :=
            dataChunkLoop_congr ptr 0 r.count.toNat s.ctx.recvBufRest
              (fun j _ hlt => hregisters j (by omega))
          simp only [hloop]
  | tail hkind hkind' =>
      rw [hkind, hkind']
  | outOfRange hkind hkind' =>
      rw [hkind, hkind']

/-- Relabelled runs get the same replies and end in the same state. -/
theorem relabelled_run
    (s : FileReceiver) {calls calls' : List FileRecord}
    (hrel : List.Forall₂ Relabelled calls calls') :
    runReplies serverWriteFileRecord s calls =
        runReplies serverWriteFileRecord s calls' ∧
      runState serverWriteFileRecord s calls =
        runState serverWriteFileRecord s calls' := by
  have hrun :
      List.Forall₂ Eq (runReplies serverWriteFileRecord s calls)
          (runReplies serverWriteFileRecord s calls') ∧
        runState serverWriteFileRecord s calls =
          runState serverWriteFileRecord s calls' := by
    refine simulated_run (E := Relabelled) (R := Eq) ?_ rfl hrel
    rintro t t' r r' rfl hr
    rw [relabelled_step t hr]
    exact ⟨rfl, rfl⟩
  rw [List.forall₂_eq_eq_eq] at hrun
  exact hrun

end Relabelling

section Identity

/--
Every tail that succeeds belongs to the file of the last accepted head, and
the data records accepted since are those of this file numbered from zero up
to the announced number of chunks, once each and in order.
-/
def IdentityEnforced (calls : List FileRecord) : Prop :=
  ∀ pre t post, calls = pre ++ t :: post →
    t.kind = .tail → Acknowledged (receiverAfter pre) t →
    ∃ h, (ledgerAfter pre).head = some h ∧
      t.fileNumber = h.fileNumber ∧
      (ledgerAfter pre).acked.map
          (fun r => (r.fileNumber, r.recordNumber.toNat)) =
        (List.range h.header.nChunks.toNat).map
          (fun k => (h.fileNumber, k))

/--
What a tail that would succeed now says: some head was accepted, at most 9998
chunks were announced, and the data records accepted since lie in the buffer
in the order of their arrival, within the announced length.
-/
def TailReportsArrival (s : FileReceiver) (l : Ledger) : Prop :=
  ∀ t : FileRecord, t.kind = .tail → Acknowledged s t →
    ∃ h, l.head = some h ∧
      h.header.nChunks.toNat ≤ mobdusFileSendHeadRecNum ∧
      (∀ r ∈ l.acked,
        r.recordNumber.toNat < mobdusFileSendHeadRecNum) ∧
      l.ackedBytes.length ≤ h.header.totalLen.toNat ∧
      window s.mem 0 l.ackedBytes.length = l.ackedBytes

/--
Records are told apart by their routing only: a run relabelled record by
record gets the same replies and leaves the same receiver, and a tail that
succeeds reports the accepted data records in the order of their arrival.
-/
theorem identity_is_routing (calls : List FileRecord) :
    (∀ calls', List.Forall₂ Relabelled calls calls' →
      runReplies serverWriteFileRecord FileReceiver.initial calls =
          runReplies serverWriteFileRecord FileReceiver.initial calls' ∧
        receiverAfter calls = receiverAfter calls') ∧
    TailReportsArrival (receiverAfter calls) (ledgerAfter calls) := by
  constructor
  · intro calls' hrel
    exact relabelled_run FileReceiver.initial hrel
  · intro t htail hack
    obtain ⟨o, h, hptr, hopen, hrest⟩ :=
      openSession_of_tail_acknowledged (ledgerInv_after calls) htail hack
    have hbound := hopen.bound
    refine ⟨h, hopen.head, hopen.announced.2.1, ?_, ?_, ?_⟩
    · intro r hr
      exact (kind_eq_data_iff r).mp (hopen.routed r hr)
    · rw [hopen.offset]
      omega
    · rw [hopen.offset]
      exact hopen.content

/-- A four-byte transfer whose two data records arrive in the wrong order. -/
def swappedTransfer : List FileRecord :=
  [announceRecord 10 4 2,
    FileRecord.ofRegisters 10 1 [0x4344],
    FileRecord.ofRegisters 10 0 [0x4142],
    tailRecord 10]

/-- The tail of the swapped transfer succeeds. -/
theorem swappedTransfer_reported :
    ¬ IdentityEnforced swappedTransfer := by
  intro hidentity
  obtain ⟨h, _, _, hnumbers⟩ :=
    hidentity (swappedTransfer.take 3) (tailRecord 10) [] rfl
      (tailRecord_kind 10) (by decide)
  have hacked :
      (ledgerAfter (swappedTransfer.take 3)).acked.map
          (fun r => (r.fileNumber, r.recordNumber.toNat)) =
        [(10, 1), (10, 0)] := by
    decide
  rw [hacked] at hnumbers
  cases hn : h.header.nChunks.toNat with
  | zero =>
      simp [hn] at hnumbers
  | succ n =>
      simp [hn, List.range_succ_eq_map] at hnumbers

end Identity

end Port
end ModbusRtu
