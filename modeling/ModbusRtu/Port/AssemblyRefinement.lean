import ModbusRtu.Kernel.ChunkAssembly
import ModbusRtu.Port.SessionDiscipline

/-!
# The file receiver refines an assembly of bytes

What the receiver is for is stated by the abstract machine of ChunkAssembly: a
head starts an assembly of the announced number of bytes, every data record
appends its bytes, and a tail succeeds exactly when they have all arrived.

Assembles relates a receiver to a state of that machine. Related states give
the same verdict on every record, and every acknowledged record keeps them
related. The one call after which they part is a refused data record that was
cut off in the middle, which leaves the abstract machine as it was and takes
the remaining bytes away from the receiver.

Since a head resets both machines, the verdict on a whole session does not
depend on what came before it.
-/

namespace ModbusRtu
namespace Port

open Kernel

section Refinement

/-- The limits of the receiver: its buffer and the largest chunk, in bytes. -/
def receiverLimits : AssemblyLimits where
  capacity := modbusFileSendDataRecvBufSize
  largest := mobdusPayloadChunkSize

/-- What a record asks of the assembly. -/
def FileRecord.assemblyInput (r : FileRecord) : AssemblyInput UInt8 :=
  match r.kind with
  | .head =>
      if r.AnnouncesTransfer then .start r.header.totalLen.toNat else .other
  | .data => .chunk r.bytes
  | .tail => .finish
  | .outOfRange => .other

/-- The receiver and the assembly are in the same place of a transfer. -/
inductive Assembles : FileReceiver → AssemblyState UInt8 → Prop
  | idle {s : FileReceiver}
      (hptr : s.ctx.recvBufPtr = none) :
      Assembles s none
  | assembling {s : FileReceiver} (total : Nat) (got : List UInt8)
      (hptr : s.ctx.recvBufPtr = some got.length)
      (hbuf : s.ctx.recvBuf = modbusFileSendDataRecvBuf)
      (hrest : got.length + s.ctx.recvBufRest.toNat = total)
      (hcontent : window s.mem 0 got.length = got) :
      Assembles s (some (total, got))

/-- The record is a data record that does not fit although it starts to. -/
def CutShort (s : FileReceiver) (r : FileRecord) : Prop :=
  r.kind = .data ∧
    s.ctx.recvBufPtr ≠ none ∧
    r.count.toNat ≤ 120 ∧
    2 ≤ s.ctx.recvBufRest.toNat ∧
    s.ctx.recvBufRest.toNat < 2 * r.count.toNat

theorem assembles_of_headAccepted
    (s : FileReceiver) (r : FileRecord) :
    Assembles { s with ctx := openedCtx r }
      (some (r.header.totalLen.toNat, [])) :=
  Assembles.assembling _ _ rfl rfl (by simp [openedCtx]) rfl

/-- A stored record has the room that the assembly asks for. -/
theorem chunk_fits_iff
    {s : FileReceiver} {total : Nat} {got : List UInt8} (r : FileRecord)
    (hrest : got.length + s.ctx.recvBufRest.toNat = total) :
    (r.bytes.length ≤ receiverLimits.largest ∧
        got.length + r.bytes.length ≤ total) ↔
      (r.count.toNat ≤ 120 ∧
        2 * r.count.toNat ≤ s.ctx.recvBufRest.toNat) := by
  simp only [length_bytes, receiverLimits, mobdusPayloadChunkSize]
  omega

/-- Related states give the same verdict on every record. -/
theorem assembles_verdict
    {s : FileReceiver} {a : AssemblyState UInt8} (r : FileRecord)
    (hrel : Assembles s a) :
    Acknowledged s r ↔
      (assemblyStep receiverLimits a r.assemblyInput).1 = true := by
  rw [acknowledged_iff]
  cases hkind : r.kind with
  | outOfRange =>
      simp [FileRecord.assemblyInput, hkind, assemblyStep]
  | head =>
      by_cases hok : r.AnnouncesTransfer
      · have hcap :
            r.header.totalLen.toNat ≤ receiverLimits.capacity :=
          hok.2.2
        simp [FileRecord.assemblyInput, hkind, hok,
          assemblyStep_start a hcap]
      · simp [FileRecord.assemblyInput, hkind, hok, assemblyStep]
  | tail =>
      cases hrel with
      | idle hnull =>
          simp [FileRecord.assemblyInput, hkind, assemblyStep, hnull]
      | assembling total got hptr hbuf hrest hcontent =>
          have hdone :
              s.ctx.recvBufRest = 0 ↔ got.length = total := by
            rw [← UInt32.toNat_inj, UInt32.toNat_zero]
            omega
          simp [FileRecord.assemblyInput, hkind, assemblyStep_finish,
            hptr, hbuf, modbusFileSendDataRecvBuf, hdone]
  | data =>
      cases hrel with
      | idle hnull =>
          simp [FileRecord.assemblyInput, hkind, assemblyStep, hnull]
      | assembling total got hptr hbuf hrest hcontent =>
          have hiff := chunk_fits_iff r hrest
          by_cases hfits :
              r.bytes.length ≤ receiverLimits.largest ∧
                got.length + r.bytes.length ≤ total
          · simp [FileRecord.assemblyInput, hkind,
              assemblyStep_chunk hfits, hptr, hiff.mp hfits]
          · have hrefused := mt hiff.mpr hfits
            simp only [FileRecord.assemblyInput, hkind,
              assemblyStep_chunk_refused hfits]
            simpa [hptr] using hrefused

/-- A stored data record extends what the assembly has got. -/
theorem assembles_of_dataStored
    {s : FileReceiver} {a : AssemblyState UInt8} {r : FileRecord}
    {ptr : Nat} {rest : UInt32}
    (hrel : Assembles s a)
    (hkind : r.kind = .data)
    (hptr : s.ctx.recvBufPtr = some ptr)
    (hlen : r.count.toNat ≤ 120)
    (hfit : 2 * r.count.toNat ≤ s.ctx.recvBufRest.toNat)
    (hrest : rest.toNat = s.ctx.recvBufRest.toNat - 2 * r.count.toNat) :
    Assembles
      { s with
        ctx := ⟨s.ctx.recvBuf, some (ptr + 2 * r.count.toNat), rest⟩
        mem := storePayload s.mem ptr r.payload }
      (assemblyStep receiverLimits a r.assemblyInput).2 := by
  cases hrel with
  | idle hnull =>
      rw [hptr] at hnull
      cases hnull
  | assembling total got hgot hstatic hmissing hcontent =>
      have hlength : ptr = got.length := by
        rw [hptr] at hgot
        exact Option.some.inj hgot
      have hextend :=
        window_storePayload_extend s.mem got.length r.payload
      rw [length_payload, hcontent] at hextend
      simp only [FileRecord.assemblyInput, hkind]
      rw [assemblyStep_chunk
        ((chunk_fits_iff r hmissing).mpr ⟨hlen, hfit⟩)]
      subst ptr
      refine Assembles.assembling _ _ ?_ hstatic ?_ ?_
      · simp
      · simp only [List.length_append, length_bytes, hrest]
        omega
      · rw [List.length_append, length_bytes]
        exact hextend

/-- A refused data record with no register stored changes neither machine. -/
theorem assembles_of_dataCut
    {s : FileReceiver} {a : AssemblyState UInt8} {r : FileRecord}
    {ptr : Nat} {rest : UInt32}
    (hrel : Assembles s a)
    (hkind : r.kind = .data)
    (hptr : s.ctx.recvBufPtr = some ptr)
    (hcut : s.ctx.recvBufRest.toNat < 2 * r.count.toNat)
    (hsmall : s.ctx.recvBufRest.toNat < 2)
    (hrest : rest.toNat = s.ctx.recvBufRest.toNat % 2) :
    Assembles
      { s with
        ctx := ⟨s.ctx.recvBuf, some ptr, rest⟩
        mem := storePayload s.mem ptr
          (r.payload.take (s.ctx.recvBufRest.toNat / 2)) }
      (assemblyStep receiverLimits a r.assemblyInput).2 := by
  cases hrel with
  | idle hnull =>
      rw [hptr] at hnull
      cases hnull
  | assembling total got hgot hstatic hmissing hcontent =>
      have hlong :
          ¬ (r.bytes.length ≤ receiverLimits.largest ∧
            got.length + r.bytes.length ≤ total) := by
        rw [chunk_fits_iff r hmissing]
        omega
      simp only [FileRecord.assemblyInput, hkind]
      rw [assemblyStep_chunk_refused hlong]
      refine Assembles.assembling _ _ ?_ hstatic ?_ ?_
      · rw [← hgot, hptr]
      · simp only [hrest]
        omega
      · rw [Nat.div_eq_of_lt hsmall, List.take_zero]
        exact hcontent

/-- Related states are related again unless the record was cut short. -/
theorem assembles_next
    {s : FileReceiver} {a : AssemblyState UInt8} {r : FileRecord}
    (hrel : Assembles s a)
    (hnocut : ¬ CutShort s r) :
    Assembles (serverWriteFileRecord s r).2
      (assemblyStep receiverLimits a r.assemblyInput).2 := by
  have hout := serverWriteFileRecord_outcome s r
  generalize serverWriteFileRecord s r = out at hout ⊢
  cases hout with
  | outOfRange hkind =>
      simpa [FileRecord.assemblyInput, hkind, assemblyStep] using hrel
  | headRejected hkind hbad =>
      simpa [FileRecord.assemblyInput, hkind, hbad, assemblyStep]
        using hrel
  | headAccepted hkind hok =>
      have hcap : r.header.totalLen.toNat ≤ receiverLimits.capacity :=
        hok.2.2
      simp only [FileRecord.assemblyInput, hkind, if_pos hok,
        assemblyStep_start a hcap]
      exact assembles_of_headAccepted s r
  | tailDelivered hkind | tailIncomplete hkind
  | tailWithoutBuffer hkind | tailClosed hkind =>
      have hfinish :
          (assemblyStep receiverLimits a r.assemblyInput).2 = none := by
        cases a <;> simp [FileRecord.assemblyInput, hkind, assemblyStep]
      rw [hfinish]
      exact Assembles.idle rfl
  | dataClosed hkind hnull =>
      cases hrel with
      | idle _ =>
          simp only [FileRecord.assemblyInput, hkind, assemblyStep]
          exact Assembles.idle hnull
      | assembling total got hgot =>
          rw [hnull] at hgot
          cases hgot
  | dataTooLong hkind hlen =>
      cases hrel with
      | idle hnull =>
          simp only [FileRecord.assemblyInput, hkind, assemblyStep]
          exact Assembles.idle hnull
      | assembling total got hgot hstatic hmissing hcontent =>
          have hbig :
              ¬ (r.bytes.length ≤ receiverLimits.largest ∧
                got.length + r.bytes.length ≤ total) := by
            rw [chunk_fits_iff r hmissing]
            omega
          simp only [FileRecord.assemblyInput, hkind]
          rw [assemblyStep_chunk_refused hbig]
          exact Assembles.assembling total got hgot hstatic hmissing
            hcontent
  | dataStored hkind ptr rest hptr hlen hfit hrest =>
      exact assembles_of_dataStored hrel hkind hptr hlen hfit hrest
  | dataCut hkind ptr rest hptr hlen hcut hrest =>
      have hsmall : s.ctx.recvBufRest.toNat < 2 := by
        by_contra hge
        exact hnocut ⟨hkind, by simp [hptr], hlen, by omega, hcut⟩
      exact assembles_of_dataCut hrel hkind hptr hcut hsmall hrest

/-- An acknowledged record is not cut short. -/
theorem not_cutShort_of_acknowledged
    {s : FileReceiver} {r : FileRecord}
    (hack : Acknowledged s r) :
    ¬ CutShort s r := by
  rintro ⟨hdata, _, _, _, hlong⟩
  rcases (acknowledged_iff s r).mp hack with
    ⟨hkind, _⟩ | ⟨hkind, _⟩ | ⟨_, _, _, hfit⟩
  · simp [hdata] at hkind
  · simp [hdata] at hkind
  · omega

/-- Every record of the run is acknowledged. -/
def AllAcknowledged (s : FileReceiver) (rs : List FileRecord) : Prop :=
  StepsMeet serverWriteFileRecord Acknowledged s rs

/-- All replies are free of errors when every record is acknowledged. -/
theorem allAcknowledged_iff_replies
    (s : FileReceiver) (rs : List FileRecord) :
    AllAcknowledged s rs ↔
      ∀ e ∈ runReplies serverWriteFileRecord s rs, e = .errorNone := by
  exact (forall_mem_runReplies_iff serverWriteFileRecord
    (fun e => e = .errorNone) s rs).symm

/-- Related states acknowledge the same runs. -/
theorem allAcknowledged_iff_assembly
    {s : FileReceiver} {a : AssemblyState UInt8}
    (hrel : Assembles s a) (rs : List FileRecord) :
    AllAcknowledged s rs ↔
      AssemblyAccepts receiverLimits a
        (rs.map FileRecord.assemblyInput) := by
  apply accepted_run_iff
    (E := fun e : NmbsError => e = .errorNone)
    (F := fun b : Bool => b = true)
    _ _ hrel
  · intro t b r ht
    exact assembles_verdict r ht
  · intro t b r ht hack
    exact assembles_next ht (not_cutShort_of_acknowledged hack)

/-- An acknowledged run ends in related states. -/
theorem assembles_of_allAcknowledged
    {s : FileReceiver} {a : AssemblyState UInt8} {rs : List FileRecord}
    (hrel : Assembles s a)
    (hack : AllAcknowledged s rs) :
    Assembles (runState serverWriteFileRecord s rs)
      (runState (assemblyStep receiverLimits) a
        (rs.map FileRecord.assemblyInput)) := by
  apply accepted_run_related
    (E := fun e : NmbsError => e = .errorNone) _ hrel hack
  intro t b r ht hok
  exact assembles_next ht (not_cutShort_of_acknowledged hok)

/--
Refinement: along every run without a record that is cut short the receiver
and the assembly give the same verdicts and stay related.
-/
theorem receiver_refines_assembly
    {s : FileReceiver} {a : AssemblyState UInt8} {rs : List FileRecord}
    (hrel : Assembles s a)
    (hnocut : StepsMeet serverWriteFileRecord
      (fun t r => ¬ CutShort t r) s rs) :
    List.Forall₂ (fun (e : NmbsError) (b : Bool) =>
        e = .errorNone ↔ b = true)
      (runReplies serverWriteFileRecord s rs)
      (runReplies (assemblyStep receiverLimits) a
        (rs.map FileRecord.assemblyInput)) ∧
    Assembles (runState serverWriteFileRecord s rs)
      (runState (assemblyStep receiverLimits) a
        (rs.map FileRecord.assemblyInput)) := by
  induction rs generalizing s a with
  | nil =>
      exact ⟨List.Forall₂.nil, hrel⟩
  | cons r rs ih =>
      have hverdict := assembles_verdict r hrel
      obtain ⟨hreplies, hend⟩ :=
        ih (assembles_next hrel hnocut.1) hnocut.2
      exact ⟨List.Forall₂.cons hverdict hreplies, hend⟩

/-- A head and the tail that follows it at once, which is refused. -/
theorem receiver_refines_assembly_tail_early :
    let rs := [announceRecord 3 8 2, tailRecord 3]
    List.Forall₂ (fun (e : NmbsError) (b : Bool) =>
        e = .errorNone ↔ b = true)
      (runReplies serverWriteFileRecord FileReceiver.initial rs)
      (runReplies (assemblyStep receiverLimits) none
        (rs.map FileRecord.assemblyInput)) ∧
    Assembles (runState serverWriteFileRecord FileReceiver.initial rs)
      (runState (assemblyStep receiverLimits) none
        (rs.map FileRecord.assemblyInput)) := by
  intro rs
  refine receiver_refines_assembly (Assembles.idle rfl) ⟨?_, ?_, trivial⟩
  · rintro ⟨hdata, -⟩
    rw [announceRecord_kind] at hdata
    cases hdata
  · rintro ⟨hdata, -⟩
    rw [tailRecord_kind] at hdata
    cases hdata

end Refinement

end Port
end ModbusRtu
