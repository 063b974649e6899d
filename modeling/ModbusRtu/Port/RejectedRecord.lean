import ModbusRtu.Port.AssemblyRefinement

/-!
# What a rejected record leaves behind

A record that is refused can be corrected and sent again only if the refusal
left the transfer where it was. Of the exits that refuse a head, a data record
or an unknown record number, all but one are taken before anything is stored.
The one left is the exit from the middle of the register loop. It is taken
after some registers of the record have been stored and the remaining bytes
have been counted down, and the write pointer is not moved.

The exit changes the state when at least one register fits, that is, when the
record is cut short. With room for no register at all it changes nothing.
-/

namespace ModbusRtu
namespace Port

open Kernel

section RejectedRecord

/--
If the call is no tail and is refused, the context and the receive buffer are
as before, and the calls that follow do what they would do without it.
-/
def RejectionLeavesTransfer (s : FileReceiver) (r : FileRecord) : Prop :=
  r.kind ≠ .tail → ¬ Acknowledged s r →
    (serverWriteFileRecord s r).2.ctx = s.ctx ∧
    window (serverWriteFileRecord s r).2.mem 0
        modbusFileSendDataRecvBufSize =
      window s.mem 0 modbusFileSendDataRecvBufSize ∧
    ∀ later : List FileRecord,
      runReplies serverWriteFileRecord
          (serverWriteFileRecord s r).2 later =
        runReplies serverWriteFileRecord s later ∧
      runState serverWriteFileRecord
          (serverWriteFileRecord s r).2 later =
        runState serverWriteFileRecord s later

/-- A refused record that is not cut short leaves the whole state alone. -/
theorem rejected_unchanged
    {s : FileReceiver} {r : FileRecord}
    (htail : r.kind ≠ .tail)
    (hrej : ¬ Acknowledged s r)
    (hnocut : ¬ CutShort s r) :
    (serverWriteFileRecord s r).2 = s := by
  unfold Acknowledged at hrej
  have hout := serverWriteFileRecord_outcome s r
  generalize serverWriteFileRecord s r = out at hout hrej ⊢
  cases hout with
  | outOfRange | headRejected | dataClosed | dataTooLong =>
      rfl
  | headAccepted | dataStored =>
      exact absurd rfl hrej
  | tailDelivered hkind | tailIncomplete hkind | tailWithoutBuffer hkind
  | tailClosed hkind =>
      exact absurd hkind htail
  | dataCut hkind ptr rest hptr hlen hlong hrest =>
      have hroom : s.ctx.recvBufRest.toNat < 2 := by
        by_contra hge
        exact hnocut ⟨hkind, by simp [hptr], hlen, by omega, hlong⟩
      have hsame : rest = s.ctx.recvBufRest := by
        refine UInt32.toNat_inj.mp ?_
        omega
      have hnone : s.ctx.recvBufRest.toNat / 2 = 0 := by
        omega
      subst hsame
      rw [hnone, List.take_zero, ← hptr]
      rfl

/-- A record that is cut short counts the remaining bytes down. -/
theorem rest_changed_of_cutShort
    {s : FileReceiver} {r : FileRecord}
    (hcut : CutShort s r) :
    (serverWriteFileRecord s r).2.ctx.recvBufRest ≠
      s.ctx.recvBufRest := by
  obtain ⟨hdata, hopen, hlen, hroom, hlong⟩ := hcut
  have hout := serverWriteFileRecord_outcome s r
  generalize serverWriteFileRecord s r = out at hout ⊢
  cases hout with
  | dataCut _ ptr rest _ _ _ hrest =>
      intro hsame
      simp only at hsame
      rw [hsame] at hrest
      omega
  | dataClosed _ hnull =>
      exact absurd hnull hopen
  | dataTooLong _ hlen' =>
      omega
  | dataStored _ ptr rest _ _ hfit =>
      omega
  | outOfRange hkind | headRejected hkind | headAccepted hkind
  | tailDelivered hkind | tailIncomplete hkind | tailWithoutBuffer hkind
  | tailClosed hkind =>
      simp [hdata] at hkind

theorem rejectionLeavesTransfer_iff (s : FileReceiver) (r : FileRecord) :
    RejectionLeavesTransfer s r ↔ ¬ CutShort s r := by
  constructor
  · intro hleaves hcut
    have htail : r.kind ≠ .tail := by
      rw [hcut.1]
      simp
    have hrej : ¬ Acknowledged s r := fun hack =>
      not_cutShort_of_acknowledged hack hcut
    obtain ⟨hctx, _⟩ := hleaves htail hrej
    exact rest_changed_of_cutShort hcut (by rw [hctx])
  · intro hnocut htail hrej
    rw [rejected_unchanged htail hrej hnocut]
    exact ⟨rfl, rfl, fun _ => ⟨rfl, rfl⟩⟩

/--
In every reachable state a refused record leaves the transfer as it was
exactly when it is not cut short. So along a run all refused records leave the
transfer as it was exactly when no call of the run is cut short.
-/
theorem rejected_records_leave_transfer_iff (calls : List FileRecord) :
    (∀ r : FileRecord,
      RejectionLeavesTransfer (receiverAfter calls) r ↔
        ¬ CutShort (receiverAfter calls) r) ∧
    ((∀ pre r post, calls = pre ++ r :: post →
        RejectionLeavesTransfer (receiverAfter pre) r) ↔
      StepsMeet serverWriteFileRecord (fun s r => ¬ CutShort s r)
        FileReceiver.initial calls) := by
  refine ⟨rejectionLeavesTransfer_iff (receiverAfter calls), ?_⟩
  simp only [rejectionLeavesTransfer_iff, stepsMeet_iff_forall_split]
  rfl

/-- A data record of three registers for a transfer of four bytes. -/
def threeRegisters : FileRecord :=
  FileRecord.ofRegisters 10 0 [0x4142, 0x4344, 0x4546]

/-- The same record with the two registers that the transfer has room for. -/
def twoRegisters : FileRecord :=
  FileRecord.ofRegisters 10 0 [0x4142, 0x4344]

/--
After a head that announces four bytes, a record of three registers is refused
and leaves no byte remaining, so the corrected record, which would have been
acknowledged, is refused too.
-/
theorem threeRegisters_rejection_counts :
    ¬ RejectionLeavesTransfer (receiverAfter [announceRecord 10 4 1])
        threeRegisters ∧
      Acknowledged (receiverAfter [announceRecord 10 4 1])
        twoRegisters ∧
      ¬ Acknowledged
        (receiverAfter [announceRecord 10 4 1, threeRegisters])
        twoRegisters := by
  refine ⟨?_, by decide, by decide⟩
  intro hleaves
  obtain ⟨hctx, _⟩ := hleaves (by decide) (by decide)
  have hrest :
      (receiverAfter [announceRecord 10 4 1]).ctx.recvBufRest = 4 := by
    decide
  have hafter :
      (serverWriteFileRecord (receiverAfter [announceRecord 10 4 1])
        threeRegisters).2.ctx.recvBufRest = 0 := by
    decide
  rw [hctx, hrest] at hafter
  cases hafter

end RejectedRecord

end Port
end ModbusRtu
