import ModbusRtu.Port.SessionDiscipline

/-!
# What a successful tail says about the acknowledged data

A sender that sees a tail answered without an error concludes that the data
records that were acknowledged since the last head are the whole file. The
handlers grant this only as long as no data record is cut off in the middle.

The register loop counts the remaining bytes down before it is known whether
the record fits. A record that is too long for the remaining bytes is refused,
but by then the counter has reached their parity. If that parity is even the
counter is zero, and the next tail succeeds although bytes are missing. If it
is odd the counter stays at one and no tail succeeds any more in this session.
So the exact condition is that no record is cut off with an even remainder.
-/

namespace ModbusRtu
namespace Port

open Kernel

section AcknowledgedContent

/--
Should a tail succeed now, the acknowledged data records carry exactly the
announced number of bytes and these bytes are what the buffer starts with.
-/
def TailReportsAcknowledged (s : FileReceiver) (l : Ledger) : Prop :=
  ∀ t : FileRecord, t.kind = .tail → Acknowledged s t →
    ∃ h, l.head = some h ∧
      (l.acked.map (fun r => 2 * r.count.toNat)).sum =
        h.header.totalLen.toNat ∧
      window s.mem 0 h.header.totalLen.toNat = l.ackedBytes

/--
A data record that passes the tests before the loop, finds room for at least
one register and an even number of bytes left, but is longer than that room.
-/
def CutsEvenRest (s : FileReceiver) (r : FileRecord) : Prop :=
  r.kind = .data ∧
    s.ctx.recvBufPtr ≠ none ∧
    r.count.toNat ≤ 120 ∧
    2 ≤ s.ctx.recvBufRest.toNat ∧
    s.ctx.recvBufRest.toNat < 2 * r.count.toNat ∧
    s.ctx.recvBufRest.toNat % 2 = 0

theorem length_ackedBytes (l : Ledger) :
    l.ackedBytes.length =
      (l.acked.map (fun r => 2 * r.count.toNat)).sum := by
  simp [Ledger.ackedBytes, List.length_flatMap]

/-- An even remainder is exactly what is missing from the announced length. -/
def RestIsMissing (s : FileReceiver) (l : Ledger) : Prop :=
  ∀ o h, s.ctx.recvBufPtr = some o → l.head = some h →
    s.ctx.recvBufRest.toNat % 2 = 0 →
    o + s.ctx.recvBufRest.toNat = h.header.totalLen.toNat

/-- Every call that does not cut an even remainder keeps the equality. -/
theorem restIsMissing_step
    (s : FileReceiver) (l : Ledger) (r : FileRecord)
    (hmiss : RestIsMissing s l)
    (hnocut : ¬ CutsEvenRest s r) :
    RestIsMissing (serverWriteFileRecord s r).2
      (l.note (r, (serverWriteFileRecord s r).1)) := by
  have hout := serverWriteFileRecord_outcome s r
  generalize serverWriteFileRecord s r = out at hout ⊢
  intro o h hptr' hhead' heven
  cases hout with
  | tailDelivered | tailIncomplete | tailWithoutBuffer | tailClosed =>
      cases hptr'
  | headAccepted hkind hok =>
      simp only [Ledger.note, hkind, if_true] at hhead'
      cases hptr'
      cases hhead'
      simp [openedCtx]
  | outOfRange hkind | headRejected hkind | dataClosed hkind
  | dataTooLong hkind =>
      simp [Ledger.note, hkind] at hhead'
      exact hmiss o h hptr' hhead' heven
  | dataStored hkind ptr rest hptr hlen hfit hrest =>
      simp only [Ledger.note, hkind, if_true] at hhead'
      have ho := Option.some.inj hptr'
      simp only at heven ⊢
      have hmissing := hmiss ptr h hptr hhead' (by omega)
      omega
  | dataCut hkind ptr rest hptr hlen hcut hrest =>
      simp [Ledger.note, hkind] at hhead'
      have ho := Option.some.inj hptr'
      simp only at heven ⊢
      have hrest_even : s.ctx.recvBufRest.toNat % 2 = 0 := by
        omega
      have hmissing := hmiss ptr h hptr hhead' hrest_even
      have hsmall : s.ctx.recvBufRest.toNat < 2 := by
        by_contra hge
        exact hnocut
          ⟨hkind, by simp [hptr], hlen, by omega, hcut, hrest_even⟩
      omega

/-- A tail that succeeds finds an open session and no byte remaining. -/
theorem openSession_of_tail_acknowledged
    {s : FileReceiver} {l : Ledger} {t : FileRecord}
    (hinv : LedgerInv s l)
    (htail : t.kind = .tail)
    (hack : Acknowledged s t) :
    ∃ o h, s.ctx.recvBufPtr = some o ∧ OpenSession s l o h ∧
      s.ctx.recvBufRest = 0 := by
  rcases (acknowledged_iff s t).mp hack with
    ⟨hkind, _⟩ | ⟨_, hptr, hrest, _⟩ | ⟨hkind, _⟩
  · simp [htail] at hkind
  · obtain ⟨o, ho⟩ := Option.ne_none_iff_exists'.mp hptr
    obtain ⟨h, hopen⟩ := hinv.opened o ho
    exact ⟨o, h, ho, hopen, hrest⟩
  · simp [htail] at hkind

/-- A tail succeeds in an open session with no byte remaining. -/
theorem tail_acknowledged_of_rest_zero
    {s : FileReceiver} {l : Ledger} {o : Nat} {h t : FileRecord}
    (hptr : s.ctx.recvBufPtr = some o)
    (hopen : OpenSession s l o h)
    (hrest : s.ctx.recvBufRest = 0)
    (htail : t.kind = .tail) :
    Acknowledged s t := by
  have hbuf : s.ctx.recvBuf ≠ none := by
    rw [hopen.static]
    exact Option.some_ne_none 0
  have hset : s.ctx.recvBufPtr ≠ none := by
    rw [hptr]
    exact Option.some_ne_none o
  exact (acknowledged_iff s t).mpr
    (Or.inr (Or.inl ⟨htail, hset, hrest, hbuf⟩))

theorem tailReportsAcknowledged_of_restIsMissing
    {s : FileReceiver} {l : Ledger}
    (hinv : LedgerInv s l)
    (hmiss : RestIsMissing s l) :
    TailReportsAcknowledged s l := by
  intro t htail hack
  obtain ⟨o, h, hptr, hopen, hrest⟩ :=
    openSession_of_tail_acknowledged hinv htail hack
  have htotal := hmiss o h hptr hopen.head (by simp [hrest])
  have ho : o = h.header.totalLen.toNat := by
    simpa [hrest] using htotal
  refine ⟨h, hopen.head, ?_, ?_⟩
  · rw [← length_ackedBytes, hopen.offset, ho]
  · rw [← ho]
    exact hopen.content

/-- Right after a cut with an even remainder a tail would succeed wrongly. -/
theorem not_reports_after_cut
    {s : FileReceiver} {l : Ledger} {r : FileRecord}
    (hinv : LedgerInv s l)
    (hcut : CutsEvenRest s r) :
    ¬ TailReportsAcknowledged (serverWriteFileRecord s r).2
      (l.note (r, (serverWriteFileRecord s r).1)) := by
  obtain ⟨hdata, hopen, hlen, hroom, hlong, heven⟩ := hcut
  intro hreports
  have hinv' := ledgerInv_step s l r hinv
  have hout := serverWriteFileRecord_outcome s r
  generalize serverWriteFileRecord s r = out at hout hreports hinv'
  cases hout with
  | dataCut hkind ptr rest hptr _ _ hrest =>
      obtain ⟨h, hsession⟩ := hinv.opened ptr hptr
      obtain ⟨h', hsession'⟩ := hinv'.opened ptr rfl
      have hzero : rest = 0 := by
        refine UInt32.toNat_inj.mp ?_
        rw [hrest]
        exact heven
      have hack :=
        tail_acknowledged_of_rest_zero (t := tailRecord 0)
          rfl hsession' hzero (tailRecord_kind 0)
      obtain ⟨h'', hhead'', hsum, _⟩ :=
        hreports (tailRecord 0) (tailRecord_kind 0) hack
      rw [← length_ackedBytes, hsession'.offset] at hsum
      simp [Ledger.note, hkind, hsession.head] at hhead''
      have hbound := hsession.bound
      subst h''
      omega
  | dataClosed hkind hnull =>
      exact hopen hnull
  | dataTooLong hkind hlen' =>
      omega
  | dataStored hkind ptr rest hptr _ hfit =>
      omega
  | outOfRange hkind | headRejected hkind | headAccepted hkind
  | tailDelivered hkind | tailIncomplete hkind | tailWithoutBuffer hkind
  | tailClosed hkind =>
      simp [hdata] at hkind

/--
Along a run of calls from reset, every state reached is one in which a
successful tail would report the acknowledged data and nothing else, exactly
when no call of the run cuts an even remainder.
-/
theorem tail_reports_acknowledged_iff (calls : List FileRecord) :
    (∀ p, p <+: calls →
      TailReportsAcknowledged (receiverAfter p) (ledgerAfter p)) ↔
    StepsMeet serverWriteFileRecord (fun s r => ¬ CutsEvenRest s r)
      FileReceiver.initial calls := by
  constructor
  · intro hreports
    rw [stepsMeet_iff_forall_split]
    rintro pre r post rfl hcut
    have hinit : pre ++ [r] <+: pre ++ r :: post :=
      ⟨post, by simp⟩
    have hnow := hreports (pre ++ [r]) hinit
    obtain ⟨hstate, hledger⟩ := ledger_after_snoc pre r
    rw [hstate, hledger] at hnow
    exact not_reports_after_cut (ledgerInv_after pre) hcut hnow
  · intro hmeet p hp
    obtain ⟨rest, rfl⟩ := hp
    have hmeet' := ((stepsMeet_append _ _ _ _ _).mp hmeet).1
    apply tailReportsAcknowledged_of_restIsMissing (ledgerInv_after p)
    apply observed_run
      (G := fun s r => ¬ CutsEvenRest s r) (R := RestIsMissing)
      restIsMissing_step _ hmeet'
    intro o h hptr
    simp [FileReceiver.initial] at hptr

/-- A four-byte transfer whose only data record is two bytes too long. -/
def overlongTransfer : List FileRecord :=
  [announceRecord 10 4 1,
    FileRecord.ofRegisters 10 0 [0x4142, 0x4344, 0x4546]]

/--
The only data record of the transfer is refused, yet the tail that follows
succeeds: four bytes are reported as received and none was acknowledged.
-/
theorem overlongTransfer_reported :
    ¬ TailReportsAcknowledged (receiverAfter overlongTransfer)
      (ledgerAfter overlongTransfer) := by
  intro hreports
  obtain ⟨h, hhead, hsum, _⟩ :=
    hreports (tailRecord 10) (tailRecord_kind 10) (by decide)
  have hacked :
      ((ledgerAfter overlongTransfer).acked.map
        (fun r => 2 * r.count.toNat)).sum = 0 := by
    decide
  have htotal :
      (ledgerAfter overlongTransfer).head.map
        (fun r => r.header.totalLen.toNat) = some 4 := by
    decide
  rw [hhead, Option.map_some] at htotal
  rw [hacked, Option.some.inj htotal] at hsum
  cases hsum

end AcknowledgedContent

end Port
end ModbusRtu
