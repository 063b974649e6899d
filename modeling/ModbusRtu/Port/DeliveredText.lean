import ModbusRtu.Port.Reassembly

/-!
# The text a tail hands on

A tail hands the receive buffer on as a C string. No handler writes a
terminator and no handler clears the buffer, so where the string ends depends
on what is behind the payload.

Two consequences are made exact here. The text of a session is its payload
followed by the residue, the string that earlier sessions left at the offset
of the announced length; so the texts after two histories agree exactly when
the residues do. And the string ends inside the buffer as long as no data
record overwrites the last zero byte that is left in it; once one does, an
empty transfer is enough to hand on a string without an end.
-/

namespace ModbusRtu
namespace Port

open Kernel

section Residue

/-- The text the last tail has handed on. -/
def deliveredText
    (history : List FileRecord) (S : Session) : Option (List UInt8) :=
  (receiverAfter (history ++ S.records)).printed.getLast?

/-- The string that a history leaves in the buffer from offset n on. -/
def residue (history : List FileRecord) (n : Nat) : List UInt8 :=
  cString (receiverAfter history).mem n
    (modbusFileSendDataRecvBufSize - n)

/--
A session that is accepted after both histories, shorter than the buffer and
without a zero byte, is handed on as the same text.
-/
def SameTextAfter
    (history₁ history₂ : List FileRecord) (S : Session) : Prop :=
  AllAcknowledged (receiverAfter history₁) S.records →
    AllAcknowledged (receiverAfter history₂) S.records →
    S.totalLen < modbusFileSendDataRecvBufSize →
    (∀ b ∈ S.payload, b ≠ 0) →
    deliveredText history₁ S = deliveredText history₂ S

/-- The delivered text is the payload followed by the residue. -/
theorem deliveredText_eq
    {history : List FileRecord} {S : Session}
    (hack : AllAcknowledged (receiverAfter history) S.records)
    (hne : ∀ b ∈ S.payload, b ≠ 0) :
    deliveredText history S =
      some (S.payload ++ residue history S.totalLen) := by
  obtain ⟨m, hrun, _, hcontent, hbehind⟩ := session_run_spec hack
  have hle : S.totalLen ≤ modbusFileSendDataRecvBufSize :=
    ((session_acknowledged_iff _ S).mp hack).1.2.2
  obtain ⟨k, hk⟩ := Nat.exists_eq_add_of_le hle
  have htext :
      cString m 0 modbusFileSendDataRecvBufSize =
        S.payload ++ residue history S.totalLen := by
    rw [hk, cString_add (by rw [hcontent]; exact hne) k, hcontent,
      Nat.zero_add, residue, hk, Nat.add_sub_cancel_left]
    congr 1
    apply cString_congr
    intro j hj _
    exact hbehind j hj
  rw [deliveredText, receiverAfter_append, hrun, htext]
  simp

/-- A transfer of four letters. -/
def fourLetters : Session :=
  transferSession 10 1
    [⟨10, 0, [0x4142, 0x4344], recordZero_routed, twoRegisters_small⟩]
    (tailRecord 10) tailRecordTen_kind

/-- A transfer of two letters. -/
def twoLetters : Session :=
  transferSession 10 1
    [⟨10, 0, [0x4546], recordZero_routed, by decide⟩]
    (tailRecord 10) tailRecordTen_kind

theorem twoLetters_payload_ne_zero :
    ∀ b ∈ twoLetters.payload, b ≠ 0 := by
  have hpayload : twoLetters.payload = [0x45, 0x46] := by
    decide
  rw [hpayload]
  simp

theorem twoLetters_acknowledged (s : FileReceiver) :
    AllAcknowledged s twoLetters.records := by
  exact transferSession_acknowledged s (by decide) (by decide)

/--
The two-run law, made exact: a session accepted after one history is accepted
after every other, and two histories deliver the same text exactly when they
leave the same string at the offset of the announced length.
-/
theorem delivered_text_eq_iff
    (history₁ history₂ : List FileRecord) (S : Session)
    (hack : AllAcknowledged (receiverAfter history₁) S.records)
    (hne : ∀ b ∈ S.payload, b ≠ 0) :
    AllAcknowledged (receiverAfter history₂) S.records ∧
      (deliveredText history₁ S = deliveredText history₂ S ↔
        residue history₁ S.totalLen = residue history₂ S.totalLen) := by
  have hack₂ : AllAcknowledged (receiverAfter history₂) S.records := by
    rw [session_acknowledged_iff] at hack ⊢
    exact hack
  refine ⟨hack₂, ?_⟩
  rw [deliveredText_eq hack hne, deliveredText_eq hack₂ hne]
  simp

/-- Two letters after reset and after four letters. -/
theorem delivered_text_eq_twoLetters :
    AllAcknowledged (receiverAfter fourLetters.records)
        twoLetters.records ∧
      (deliveredText [] twoLetters =
          deliveredText fourLetters.records twoLetters ↔
        residue [] 2 = residue fourLetters.records 2) := by
  exact delivered_text_eq_iff [] fourLetters.records twoLetters
    (twoLetters_acknowledged _) twoLetters_payload_ne_zero

/-- The last two of the four letters show up behind the two letters. -/
theorem twoLetters_leak :
    ¬ SameTextAfter fourLetters.records [] twoLetters := by
  intro hsame
  have htext :=
    hsame (twoLetters_acknowledged _) (twoLetters_acknowledged _)
      (by decide) twoLetters_payload_ne_zero
  have hne := twoLetters_payload_ne_zero
  have htwo : twoLetters.totalLen = 2 := by
    decide
  rw [deliveredText_eq (twoLetters_acknowledged _) hne,
    deliveredText_eq (twoLetters_acknowledged _) hne, htwo] at htext
  have hempty : residue [] 2 = [] :=
    cString_succ_eq_nil_iff.mpr rfl
  have hleft : residue fourLetters.records 2 ≠ [] := by
    intro hnil
    have hzero := cString_succ_eq_nil_iff.mp hnil
    revert hzero
    decide
  rw [hempty] at htext
  exact hleft (List.append_cancel_left (Option.some.inj htext))

end Residue

section Terminator

/-- Every tail of the run that hands a text on finds a zero byte. -/
def TextsEndInside (calls : List FileRecord) : Prop :=
  ∀ pre t post, calls = pre ++ t :: post →
    t.kind = .tail → Acknowledged (receiverAfter pre) t →
    Terminated (receiverAfter pre).mem 0 modbusFileSendDataRecvBufSize

/-- The record is a data record that gets to the register loop at ptr. -/
def ReachesLoop (s : FileReceiver) (r : FileRecord) (ptr : Nat) : Prop :=
  r.kind = .data ∧ r.count.toNat ≤ 120 ∧ s.ctx.recvBufPtr = some ptr

/-- The registers that the loop stores. -/
def storedRegisters (s : FileReceiver) (r : FileRecord) : List UInt16 :=
  r.payload.take (s.ctx.recvBufRest.toNat / 2)

/--
The record gets to the register loop, stores no zero byte, and covers every
zero byte that the buffer has.
-/
def OverwritesLastZero (s : FileReceiver) (r : FileRecord) : Prop :=
  ∃ ptr, ReachesLoop s r ptr ∧
    0 ∉ wireString (storedRegisters s r) ∧
    ∀ k, k < modbusFileSendDataRecvBufSize → s.mem k = 0 →
      ptr ≤ k ∧ k < ptr + 2 * (storedRegisters s r).length

/-- A call writes to the memory only in the register loop. -/
theorem mem_step_of_not_reachesLoop
    {s : FileReceiver} {r : FileRecord}
    (hno : ∀ ptr, ¬ ReachesLoop s r ptr) :
    (serverWriteFileRecord s r).2.mem = s.mem := by
  have hout := serverWriteFileRecord_outcome s r
  generalize serverWriteFileRecord s r = out at hout ⊢
  cases hout with
  | dataStored hkind ptr rest hptr hlen
  | dataCut hkind ptr rest hptr hlen =>
      exact False.elim (hno ptr ⟨hkind, hlen, hptr⟩)
  | outOfRange | headRejected | headAccepted | tailDelivered
  | tailIncomplete | tailWithoutBuffer | tailClosed | dataClosed
  | dataTooLong =>
      rfl

theorem mem_step_of_reachesLoop
    {s : FileReceiver} {r : FileRecord} {ptr : Nat}
    (hreach : ReachesLoop s r ptr) :
    (serverWriteFileRecord s r).2.mem =
      storePayload s.mem ptr (storedRegisters s r) := by
  obtain ⟨hdata, hsmall, hopen⟩ := hreach
  have hout := serverWriteFileRecord_outcome s r
  generalize serverWriteFileRecord s r = out at hout ⊢
  cases hout with
  | dataStored hkind ptr' rest hptr hlen hfit hrest =>
      have hsame : ptr' = ptr := by
        rw [hopen] at hptr
        exact (Option.some.inj hptr).symm
      have hall : storedRegisters s r = r.payload := by
        apply List.take_of_length_le
        rw [length_payload]
        omega
      rw [hall, hsame]
  | dataCut hkind ptr' rest hptr hlen hcut hrest =>
      have hsame : ptr' = ptr := by
        rw [hopen] at hptr
        exact (Option.some.inj hptr).symm
      rw [storedRegisters, hsame]
  | dataClosed _ hnull =>
      rw [hopen] at hnull
      cases hnull
  | dataTooLong _ hlong =>
      omega
  | outOfRange hk | headRejected hk | headAccepted hk
  | tailDelivered hk | tailIncomplete hk | tailWithoutBuffer hk
  | tailClosed hk =>
      simp [hdata] at hk

/-- The stored registers end inside the buffer. -/
theorem storedRegisters_inside
    {s : FileReceiver} {l : Ledger} {ptr : Nat}
    (hinv : LedgerInv s l)
    (hptr : s.ctx.recvBufPtr = some ptr) (r : FileRecord) :
    ptr + 2 * (storedRegisters s r).length ≤
      modbusFileSendDataRecvBufSize := by
  obtain ⟨h, hopen⟩ := hinv.opened ptr hptr
  have hbound := hopen.bound
  have htotal := hopen.announced.2.2
  rw [storedRegisters, List.length_take]
  omega

/-- After a store the buffer has a stored zero byte or one from before. -/
theorem terminated_storePayload_iff
    {m : ByteMem} {a n : Nat} {xs : List UInt16}
    (hfit : a + 2 * xs.length ≤ n) :
    Terminated (storePayload m a xs) 0 n ↔
      0 ∈ wireString xs ∨
        ∃ k, k < n ∧ m k = 0 ∧ (k < a ∨ a + 2 * xs.length ≤ k) := by
  constructor
  · rintro ⟨k, hk, hzero⟩
    rw [Nat.zero_add] at hzero
    by_cases hout : k < a ∨ a + 2 * xs.length ≤ k
    · rw [storePayload_outside m a xs hout] at hzero
      exact Or.inr ⟨k, hk, hzero, hout⟩
    · left
      rw [← window_storePayload m a xs, mem_window]
      refine ⟨k - a, by omega, ?_⟩
      rw [Nat.add_sub_cancel' (by omega)]
      exact hzero
  · rintro (hmem | ⟨k, hk, hzero, hout⟩)
    · rw [← window_storePayload m a xs, mem_window] at hmem
      obtain ⟨j, hj, hzero⟩ := hmem
      exact ⟨a + j, by omega, by rw [Nat.zero_add]; exact hzero⟩
    · refine ⟨k, hk, ?_⟩
      rw [Nat.zero_add, storePayload_outside m a xs hout]
      exact hzero

/-- A call keeps a zero byte in the buffer unless it overwrites the last. -/
theorem terminated_step_iff
    {s : FileReceiver} {l : Ledger}
    (hinv : LedgerInv s l) (r : FileRecord)
    (hterm : Terminated s.mem 0 modbusFileSendDataRecvBufSize) :
    Terminated (serverWriteFileRecord s r).2.mem 0
        modbusFileSendDataRecvBufSize ↔
      ¬ OverwritesLastZero s r := by
  by_cases hreach : ∃ ptr, ReachesLoop s r ptr
  · obtain ⟨ptr, hreach⟩ := hreach
    have hinside := storedRegisters_inside hinv hreach.2.2 r
    rw [mem_step_of_reachesLoop hreach,
      terminated_storePayload_iff hinside]
    constructor
    · rintro hzero ⟨ptr', hreach', hnone, hcover⟩
      have hsame : ptr' = ptr :=
        Option.some.inj (hreach'.2.2.symm.trans hreach.2.2)
      rcases hzero with hmem | ⟨k, hk, hbyte, hout⟩
      · exact hnone hmem
      · have hcovered := hcover k hk hbyte
        omega
    · intro hkeeps
      by_contra hgone
      obtain ⟨hnone, hcover⟩ := not_or.mp hgone
      refine hkeeps ⟨ptr, hreach, hnone, ?_⟩
      intro k hk hbyte
      by_contra hout
      exact hcover ⟨k, hk, hbyte, by omega⟩
  · have hno : ∀ ptr, ¬ ReachesLoop s r ptr := by
      intro ptr hptr
      exact hreach ⟨ptr, hptr⟩
    rw [mem_step_of_not_reachesLoop hno]
    refine ⟨?_, fun _ => hterm⟩
    rintro - ⟨ptr, hptr, _⟩
    exact hno ptr hptr

/-- The buffer has a zero byte after every prefix of the run. -/
theorem terminated_along_iff (calls : List FileRecord) :
    (∀ pre, pre <+: calls →
      Terminated (receiverAfter pre).mem 0
        modbusFileSendDataRecvBufSize) ↔
    StepsMeet serverWriteFileRecord (fun s r => ¬ OverwritesLastZero s r)
      FileReceiver.initial calls := by
  rw [stepsMeet_iff_forall_split]
  constructor
  · rintro hterm pre r post rfl
    have hbefore := hterm pre ⟨r :: post, rfl⟩
    have hafter := hterm (pre ++ [r]) ⟨post, by simp⟩
    rw [(ledger_after_snoc pre r).1] at hafter
    exact (terminated_step_iff (ledgerInv_after pre) r hbefore).mp hafter
  · intro hkeeps pre hpre
    induction pre using List.reverseRecOn with
    | nil =>
        exact ⟨0, by decide, rfl⟩
    | append_singleton pre r ih =>
        obtain ⟨post, hpost⟩ := hpre
        have hcalls : calls = pre ++ r :: post := by
          rw [← hpost]
          simp
        rw [(ledger_after_snoc pre r).1]
        exact (terminated_step_iff (ledgerInv_after pre) r
          (ih ⟨r :: post, hcalls.symm⟩)).mpr
          (hkeeps pre r post hcalls)

/-- A transfer of no bytes: a head and a tail. -/
def emptyTransfer : Session :=
  transferSession 0 0 [] (tailRecord 0) (tailRecord_kind 0)

/-- An empty transfer hands on whatever the buffer holds. -/
theorem not_textsEndInside_emptyTransfer
    {pre : List FileRecord}
    (hnone : ¬ Terminated (receiverAfter pre).mem 0
      modbusFileSendDataRecvBufSize) :
    ¬ TextsEndInside (pre ++ emptyTransfer.records) := by
  intro hends
  have hack : AllAcknowledged (receiverAfter pre)
      emptyTransfer.records :=
    transferSession_acknowledged _ (by decide) (by decide)
  have htail := ((stepsMeet_append _ _ _ _ _).mp hack).2.1
  rw [← receiverAfter_append] at htail
  obtain ⟨k, hk, hzero⟩ :=
    hends (pre ++ emptyTransfer.opening) emptyTransfer.tail []
      (by simp [Session.records]) emptyTransfer.tailKind htail
  apply hnone
  refine ⟨k, hk, ?_⟩
  rw [receiverAfter_append] at hzero
  rw [← hzero]
  exact ((writesBelow_opening (receiverAfter pre) emptyTransfer
    (by decide)).behind (0 + k) (Nat.zero_le _)).symm

/--
The delivered strings end inside the buffer, made exact. Along a run in which
no data record overwrites the last zero byte every tail finds a terminator;
and a run in which one does has a prefix after which an empty transfer hands
on a string without an end.
-/
theorem texts_end_inside_of_zero_kept (calls : List FileRecord) :
    (StepsMeet serverWriteFileRecord
        (fun s r => ¬ OverwritesLastZero s r)
        FileReceiver.initial calls →
      TextsEndInside calls) ∧
    (¬ StepsMeet serverWriteFileRecord
        (fun s r => ¬ OverwritesLastZero s r)
        FileReceiver.initial calls →
      ∃ pre, pre <+: calls ∧
        ¬ TextsEndInside (pre ++ emptyTransfer.records)) := by
  rw [← terminated_along_iff]
  constructor
  · rintro hterm pre t post rfl - -
    exact hterm pre ⟨t :: post, rfl⟩
  · intro hgone
    obtain ⟨pre, hpre⟩ := not_forall.mp hgone
    obtain ⟨hinit, hnone⟩ := Classical.not_imp.mp hpre
    exact ⟨pre, hinit, not_textsEndInside_emptyTransfer hnone⟩

/-- A chunk of n registers that all hold two letters. -/
def lettersChunk (n : Nat) (hn : n ≤ 120) : DataChunk where
  fileNumber := 10
  recordNumber := 0
  registers := List.replicate n 0x4141
  routed := recordZero_routed
  small := by simpa using hn

/-- Eight full chunks and one of 64 registers: 2048 letters. -/
def fullBufferChunks : List DataChunk :=
  List.replicate 8 (lettersChunk 120 (by decide)) ++
    [lettersChunk 64 (by decide)]

/-- A transfer of as many letters as the buffer has bytes. -/
def fullBuffer : Session :=
  transferSession 10 9 fullBufferChunks
    (tailRecord 10) tailRecordTen_kind

theorem length_lettersChunk (n : Nat) (hn : n ≤ 120) :
    (lettersChunk n hn).registers.length = n := by
  exact List.length_replicate

theorem length_fullBufferChunks :
    (allRegisters fullBufferChunks).length = 1024 := by
  rw [allRegisters, List.length_flatMap, fullBufferChunks,
    List.map_append, List.map_replicate, List.map_singleton,
    length_lettersChunk, length_lettersChunk]
  rfl

theorem zero_notMem_fullBuffer_payload :
    0 ∉ fullBuffer.payload := by
  rw [fullBuffer, transferSession_payload]
  intro hzero
  obtain ⟨x, hx, hbyte⟩ := List.mem_flatMap.mp hzero
  obtain ⟨c, hc, hreg⟩ := List.mem_flatMap.mp hx
  have hletters : x = 0x4141 := by
    rcases List.mem_append.mp hc with hfull | hlast
    · rw [List.eq_of_mem_replicate hfull] at hreg
      exact List.eq_of_mem_replicate hreg
    · rw [List.mem_singleton.mp hlast] at hreg
      exact List.eq_of_mem_replicate hreg
  subst x
  revert hbyte
  decide

/-- After reset, the tail of a full buffer of letters finds no zero byte. -/
theorem fullBuffer_without_end :
    ¬ TextsEndInside fullBuffer.records := by
  intro hends
  have hfits :
      2 * (allRegisters fullBufferChunks).length ≤
        modbusFileSendDataRecvBufSize := by
    rw [length_fullBufferChunks]
    decide
  have hack : AllAcknowledged FileReceiver.initial fullBuffer.records :=
    transferSession_acknowledged _ (by decide) hfits
  have hlen : fullBuffer.totalLen = modbusFileSendDataRecvBufSize := by
    rw [fullBuffer, (transferSession_header (by decide) hfits).1,
      length_fullBufferChunks]
    rfl
  have htail := ((stepsMeet_append _ _ _ _ _).mp hack).2.1
  have hterm :=
    hends fullBuffer.opening fullBuffer.tail []
      (by simp [Session.records]) fullBuffer.tailKind htail
  obtain ⟨_, hcontent⟩ := opening_spec hack
  rw [terminated_iff_mem_window, receiverAfter, ← hlen,
    hcontent] at hterm
  exact zero_notMem_fullBuffer_payload hterm

end Terminator

end Port
end ModbusRtu
