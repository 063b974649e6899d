import ModbusRtu.Port.Reassembly

/-!
# Records that are processed twice

The client resends a request whose response was lost, so the receiver may see
any record of a session twice in a row. It keeps no trace of the record it saw
last and treats the copy as a record of its own.

For a head this does no harm, since the second head starts the same transfer
again. A data record is appended a second time, so the lengths no longer add
up unless it was empty, and some later call of the session fails. A second
tail finds the transfer closed: it is refused, and changes nothing.
-/

namespace ModbusRtu
namespace Port

open Kernel

section Retry

/--
The run of a session with one record repeated is as good as the session: every
call is answered without an error, context and payload end up the same, and
the file is handed on exactly once, as the same text.
-/
structure RetryHarmless
    (s : FileReceiver) (S : Session)
    (repeated : List FileRecord) : Prop where
  acknowledged : AllAcknowledged s repeated
  context :
    (runState serverWriteFileRecord s repeated).ctx =
      (runState serverWriteFileRecord s S.records).ctx
  payload :
    window (runState serverWriteFileRecord s repeated).mem 0 S.totalLen =
      window (runState serverWriteFileRecord s S.records).mem
        0 S.totalLen
  once : ∃ text,
    (runState serverWriteFileRecord s repeated).printed =
      s.printed ++ [text]
  texts :
    (runState serverWriteFileRecord s repeated).printed =
      (runState serverWriteFileRecord s S.records).printed

/-- The three places at which a session can be cut before a record. -/
theorem session_split_cases
    {S : Session} {pre post : List FileRecord} {c : FileRecord}
    (hsplit : S.records = pre ++ c :: post) :
    (pre = [] ∧ c = S.head ∧ post = S.data ++ [S.tail]) ∨
    (∃ before after, S.data = before ++ c :: after ∧
      pre = S.head :: before ∧ post = after ++ [S.tail]) ∨
    (pre = S.opening ∧ c = S.tail ∧ post = []) := by
  cases pre with
  | nil =>
      left
      simp only [Session.records, Session.opening, List.cons_append,
        List.nil_append, List.cons.injEq] at hsplit
      exact ⟨rfl, hsplit.1.symm, hsplit.2.symm⟩
  | cons h before =>
      right
      simp only [Session.records, Session.opening, List.cons_append,
        List.cons.injEq] at hsplit
      obtain ⟨rfl, hrest⟩ := hsplit
      rcases List.eq_nil_or_concat' post with rfl | ⟨after, t, rfl⟩
      · right
        obtain ⟨hdata, htail⟩ := List.append_inj' hrest rfl
        exact ⟨by rw [Session.opening, hdata],
          (List.singleton_inj.mp htail).symm, rfl⟩
      · left
        rw [← List.cons_append, ← List.append_assoc] at hrest
        obtain ⟨hdata, htail⟩ := List.append_inj' hrest rfl
        exact ⟨before, after, hdata, rfl,
          by rw [List.singleton_inj.mp htail]⟩

/-- A repeated head starts the same transfer again. -/
theorem retry_head
    {s : FileReceiver} {S : Session}
    (hack : AllAcknowledged s S.records) :
    AllAcknowledged s (S.head :: S.records) ∧
      runState serverWriteFileRecord s (S.head :: S.records) =
        runState serverWriteFileRecord s S.records := by
  have hok := ((session_acknowledged_iff s S).mp hack).1
  refine ⟨⟨?_, ?_⟩, ?_⟩
  · exact (acknowledged_head_iff s S.headKind).mpr hok
  · exact (session_acknowledged_iff _ S).mpr
      ((session_acknowledged_iff s S).mp hack)
  · simp only [Session.records, Session.opening, List.cons_append,
      runState_cons, step_head_accepted _ S.headKind hok]

/-- The session with one data record repeated. -/
def Session.repeatData
    (S : Session) {before after : List FileRecord} {c : FileRecord}
    (hdata : S.data = before ++ c :: after) : Session where
  head := S.head
  data := before ++ c :: c :: after
  tail := S.tail
  headKind := S.headKind
  dataKind := by
    intro r hr
    apply S.dataKind r
    rw [hdata]
    simpa using hr
  tailKind := S.tailKind

/-- Acknowledged sessions with the same payload end in the same state. -/
theorem runState_eq_of_payload_eq
    {s : FileReceiver} {S S' : Session}
    (hack : AllAcknowledged s S.records)
    (hack' : AllAcknowledged s S'.records)
    (hlen : S'.totalLen = S.totalLen)
    (hpayload : S'.payload = S.payload) :
    runState serverWriteFileRecord s S'.records =
      runState serverWriteFileRecord s S.records := by
  obtain ⟨m, hrun, _, hcontent, hbehind⟩ := session_run_spec hack
  obtain ⟨m', hrun', _, hcontent', hbehind'⟩ := session_run_spec hack'
  have hmem : m' = m := by
    funext k
    by_cases hk : S.totalLen ≤ k
    · rw [hbehind k hk, hbehind' k (by omega)]
    · have hwindow : window m' 0 S.totalLen = window m 0 S.totalLen := by
        rw [hcontent, ← hlen, hcontent', hpayload]
      exact window_eq_iff.mp hwindow k (Nat.zero_le k) (by omega)
  rw [hrun, hrun', hmem]

section RepeatData

variable {S : Session} {before after : List FileRecord} {c : FileRecord}
variable (hdata : S.data = before ++ c :: after)

/-- The bytes of a repeated data record count twice. -/
theorem length_repeatData_payload :
    (S.repeatData hdata).payload.length =
      S.payload.length + 2 * c.count.toNat := by
  have hbytes := length_bytes c
  simp only [Session.payload, Session.repeatData, hdata,
    List.flatMap_append, List.flatMap_cons, List.length_append]
  omega

/-- Repeating an empty data record does not change the payload. -/
theorem repeatData_payload
    (hempty : c.count.toNat = 0) :
    (S.repeatData hdata).payload = S.payload := by
  have hnil : c.bytes = [] := by
    refine List.eq_nil_of_length_eq_zero ?_
    rw [length_bytes, hempty]
  simp only [Session.payload, Session.repeatData, hdata,
    List.flatMap_append, List.flatMap_cons, hnil, List.nil_append]

/-- A repeated data record is accepted exactly when it is empty. -/
theorem repeatData_acknowledged_iff
    {s : FileReceiver}
    (hack : AllAcknowledged s S.records) :
    AllAcknowledged s (S.repeatData hdata).records ↔
      c.count.toNat = 0 := by
  obtain ⟨hok, hsmall, hsum⟩ := (session_acknowledged_iff s S).mp hack
  have htotal : (S.repeatData hdata).totalLen = S.totalLen := by
    rfl
  rw [session_acknowledged_iff, length_repeatData_payload, htotal]
  constructor
  · rintro ⟨_, _, hsum'⟩
    omega
  · intro hempty
    refine ⟨hok, ?_, by omega⟩
    intro r hr
    refine hsmall r ?_
    rw [hdata]
    simpa [Session.repeatData] using hr

/-- A repeated empty data record leaves the receiver as the session does. -/
theorem retry_data
    {s : FileReceiver}
    (hack : AllAcknowledged s S.records)
    (hempty : c.count.toNat = 0) :
    runState serverWriteFileRecord s (S.repeatData hdata).records =
      runState serverWriteFileRecord s S.records := by
  have hack' := (repeatData_acknowledged_iff hdata hack).mpr hempty
  exact runState_eq_of_payload_eq hack hack' rfl
    (repeatData_payload hdata hempty)

end RepeatData

/-- A tail in a closed transfer is refused and keeps a cleared context. -/
theorem step_tail_closed
    {s : FileReceiver} {t : FileRecord}
    (hkind : t.kind = .tail)
    (hctx : s.ctx = ⟨none, none, 0⟩) :
    serverWriteFileRecord s t = (.errorInvalidRequest, s) := by
  rw [serverWriteFileRecord_route, hkind]
  obtain ⟨ctx, mem, printed⟩ := s
  simp only at hctx
  subst hctx
  rfl

/-- A repeated tail is refused and changes nothing. -/
theorem retry_tail
    {s : FileReceiver} {S : Session}
    (hack : AllAcknowledged s S.records) :
    ¬ AllAcknowledged s (S.opening ++ [S.tail, S.tail]) ∧
      runState serverWriteFileRecord s (S.opening ++ [S.tail, S.tail]) =
        runState serverWriteFileRecord s S.records := by
  obtain ⟨m, hrun, _⟩ := session_run_spec hack
  have hclosed :
      serverWriteFileRecord (runState serverWriteFileRecord s S.records)
          S.tail =
        (.errorInvalidRequest,
          runState serverWriteFileRecord s S.records) := by
    apply step_tail_closed S.tailKind
    rw [hrun]
  have hlist : S.opening ++ [S.tail, S.tail] = S.records ++ [S.tail] := by
    simp [Session.records]
  rw [hlist]
  constructor
  · intro hall
    have hlast := ((stepsMeet_append _ _ _ _ _).mp hall).2.1
    rw [Acknowledged, hclosed] at hlast
    cases hlast
  · rw [runState_append, runState_cons, runState_nil, hclosed]

/-- A run that ends as the session does is harmless when it is acknowledged. -/
theorem retryHarmless_of_runState_eq
    {s : FileReceiver} {S : Session} {repeated : List FileRecord}
    (hack : AllAcknowledged s S.records)
    (hrepeated : AllAcknowledged s repeated)
    (hend : runState serverWriteFileRecord s repeated =
      runState serverWriteFileRecord s S.records) :
    RetryHarmless s S repeated := by
  obtain ⟨m, hrun, _⟩ := session_run_spec hack
  refine ⟨hrepeated, by rw [hend], by rw [hend], ?_, by rw [hend]⟩
  rw [hend, hrun]
  exact ⟨_, rfl⟩

/--
A retried record, for every session that would be acknowledged after every
history and every record of it that is processed twice in a row. The retry is
harmless exactly for the head and for data records without registers; another
data record makes some call of the session fail; a repeated tail is refused
and leaves the receiver as the session left it.
-/
theorem retry_harmless_iff
    (history : List FileRecord) (S : Session)
    (pre post : List FileRecord) (c : FileRecord)
    (hack : AllAcknowledged (receiverAfter history) S.records)
    (hsplit : S.records = pre ++ c :: post) :
    (RetryHarmless (receiverAfter history) S (pre ++ c :: c :: post) ↔
      c.kind = .head ∨ (c.kind = .data ∧ c.count.toNat = 0)) ∧
    (c.kind = .data → c.count.toNat ≠ 0 →
      ¬ AllAcknowledged (receiverAfter history)
        (pre ++ c :: c :: post)) ∧
    (c.kind = .tail →
      ¬ AllAcknowledged (receiverAfter history)
        (pre ++ c :: c :: post) ∧
      runState serverWriteFileRecord (receiverAfter history)
          (pre ++ c :: c :: post) =
        runState serverWriteFileRecord (receiverAfter history)
          S.records) := by
  rcases session_split_cases hsplit with
    ⟨rfl, rfl, rfl⟩ | ⟨before, after, hdata, rfl, rfl⟩ | ⟨rfl, rfl, rfl⟩
  · obtain ⟨hall, hend⟩ := retry_head hack
    simp only [S.headKind, reduceCtorEq, false_and, or_false,
      false_implies, and_true, iff_true]
    exact retryHarmless_of_runState_eq hack hall hend
  · have hkind : c.kind = .data := by
      apply S.dataKind c
      rw [hdata]
      simp
    have hlist :
        S.head :: before ++ c :: c :: (after ++ [S.tail]) =
          (S.repeatData hdata).records := by
      simp [Session.records, Session.opening, Session.repeatData]
    have hiff := repeatData_acknowledged_iff hdata hack
    rw [hlist]
    simp only [hkind, reduceCtorEq, false_or, true_and, false_implies,
      and_true, true_implies]
    refine ⟨⟨fun h => hiff.mp h.acknowledged, fun hempty => ?_⟩,
      fun hne hall => hne (hiff.mp hall)⟩
    exact retryHarmless_of_runState_eq hack (hiff.mpr hempty)
      (retry_data hdata hack hempty)
  · obtain ⟨hrefused, hend⟩ := retry_tail hack
    simp only [S.tailKind, reduceCtorEq, false_and, or_self,
      false_implies, true_implies, iff_false, true_and]
    exact ⟨fun h => hrefused h.acknowledged, hrefused, hend⟩

/-- A two-byte transfer in one data record. -/
def oneRegister : Session :=
  transferSession 10 1
    [⟨10, 0, [0x4142], recordZero_routed, by decide⟩]
    (tailRecord 10) tailRecordTen_kind

theorem oneRegister_acknowledged (s : FileReceiver) :
    AllAcknowledged s oneRegister.records := by
  exact transferSession_acknowledged s (by decide) (by decide)

/-- The head of the two-byte transfer, repeated. -/
theorem retry_harmless_oneRegister_head :
    RetryHarmless (receiverAfter []) oneRegister
      (oneRegister.head :: oneRegister.records) := by
  have h :=
    retry_harmless_iff [] oneRegister []
      (oneRegister.data ++ [oneRegister.tail]) oneRegister.head
      (oneRegister_acknowledged _) rfl
  exact h.1.mpr (Or.inl rfl)

/-- The data record of the two-byte transfer is refused when it is repeated. -/
theorem oneRegister_data_retry_refused :
    ¬ ∀ (S : Session) (pre post : List FileRecord) (c : FileRecord),
      AllAcknowledged (receiverAfter []) S.records →
      S.records = pre ++ c :: post →
      RetryHarmless (receiverAfter []) S (pre ++ c :: c :: post) := by
  intro hclaim
  have hharmless :=
    hclaim oneRegister [oneRegister.head] [oneRegister.tail]
      (DataChunk.record ⟨10, 0, [0x4142], by decide, by decide⟩)
      (oneRegister_acknowledged _) rfl
  have hsecond := hharmless.acknowledged.2.2.1
  revert hsecond
  decide

end Retry

end Port
end ModbusRtu
