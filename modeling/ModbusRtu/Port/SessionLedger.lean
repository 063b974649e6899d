import ModbusRtu.Port.FileSendSteps

/-!
# The session ledger and the context invariant

The context has no flag that says whether a transfer is open. A ledger is an
observer that only sees the calls and their replies: it notes the last
accepted head, the data records acknowledged since, whether a tail has come
since, and how many heads were accepted and tails answered without an error.

LedgerInv ties the context and the buffer to the ledger. It holds in every
reachable state without any assumption on the calls. It is weaker than the
equality offset + rest = total length, which a data record that is cut off in
the middle of its registers destroys: only the bound, the parity and the
content up to the write pointer survive every exit.
-/

namespace ModbusRtu
namespace Port

open Kernel

section Ledger

/-- What an observer of calls and replies knows about the transfer. -/
structure Ledger where
  /-- The last accepted head record. -/
  head : Option FileRecord
  /-- Data records acknowledged since the last accepted head, in order. -/
  acked : List FileRecord
  /-- A tail record, successful or not, came since the last accepted head. -/
  closed : Bool
  /-- Heads accepted so far. -/
  heads : Nat
  /-- Tails answered without an error so far. -/
  tails : Nat
  /-- Tails answered without an error since the last accepted head. -/
  deliveries : Nat

/-- The ledger before the first call. -/
def Ledger.empty : Ledger where
  head := none
  acked := []
  closed := false
  heads := 0
  tails := 0
  deliveries := 0

/-- The ledger after one more call and its reply. -/
def Ledger.note (l : Ledger) : FileRecord × NmbsError → Ledger
  | (r, e) =>
      match r.kind with
      | .head =>
          if e = .errorNone then
            { head := some r, acked := [], closed := false,
              heads := l.heads + 1, tails := l.tails, deliveries := 0 }
          else
            l
      | .data =>
          if e = .errorNone then
            { l with acked := l.acked ++ [r] }
          else
            l
      | .tail =>
          if e = .errorNone then
            { l with closed := true, tails := l.tails + 1,
                     deliveries := l.deliveries + 1 }
          else
            { l with closed := true }
      | .outOfRange => l

/-- Bytes of the acknowledged data records, in the order of the replies. -/
def Ledger.ackedBytes (l : Ledger) : List UInt8 :=
  l.acked.flatMap FileRecord.bytes

/-- The receiver after a sequence of calls from reset. -/
def receiverAfter (calls : List FileRecord) : FileReceiver :=
  runState serverWriteFileRecord FileReceiver.initial calls

/-- The ledger after a sequence of calls from reset. -/
def ledgerAfter (calls : List FileRecord) : Ledger :=
  (runTrace serverWriteFileRecord FileReceiver.initial calls).foldl
    Ledger.note Ledger.empty

theorem receiverAfter_append (calls more : List FileRecord) :
    receiverAfter (calls ++ more) =
      runState serverWriteFileRecord (receiverAfter calls) more := by
  exact runState_append _ _ _ _

theorem ledgerAfter_append (calls more : List FileRecord) :
    ledgerAfter (calls ++ more) =
      (runTrace serverWriteFileRecord (receiverAfter calls) more).foldl
        Ledger.note (ledgerAfter calls) := by
  rw [ledgerAfter, runTrace_append, List.foldl_append]
  rfl

/-- One more call from the state that the calls before it reached. -/
theorem ledger_after_snoc (calls : List FileRecord) (r : FileRecord) :
    receiverAfter (calls ++ [r]) =
        (serverWriteFileRecord (receiverAfter calls) r).2 ∧
      ledgerAfter (calls ++ [r]) =
        (ledgerAfter calls).note
          (r, (serverWriteFileRecord (receiverAfter calls) r).1) := by
  rw [receiverAfter_append, ledgerAfter_append]
  exact ⟨rfl, rfl⟩

end Ledger

section Invariant

/-- The receiver has an open transfer of head h, written up to offset o. -/
structure OpenSession
    (s : FileReceiver) (l : Ledger) (o : Nat) (h : FileRecord) : Prop where
  head : l.head = some h
  kind : h.kind = .head
  announced : h.AnnouncesTransfer
  notClosed : l.closed = false
  undelivered : l.deliveries = 0
  pending : l.tails < l.heads
  static : s.ctx.recvBuf = modbusFileSendDataRecvBuf
  offset : l.ackedBytes.length = o
  bound : o + s.ctx.recvBufRest.toNat ≤ h.header.totalLen.toNat
  parity :
    (o + s.ctx.recvBufRest.toNat) % 2 = h.header.totalLen.toNat % 2
  content : window s.mem 0 o = l.ackedBytes
  routed : ∀ r ∈ l.acked, r.kind = .data

/-- What ties the receiver to the ledger in every reachable state. -/
structure LedgerInv (s : FileReceiver) (l : Ledger) : Prop where
  opened :
    ∀ o, s.ctx.recvBufPtr = some o → ∃ h, OpenSession s l o h
  restNull :
    s.ctx.recvBufPtr = none → s.ctx.recvBufRest = 0
  shut :
    s.ctx.recvBufPtr = none → l.head = none ∨ l.closed = true
  tailsLe : l.tails ≤ l.heads
  deliveriesLe : l.deliveries ≤ 1

theorem ledgerInv_initial :
    LedgerInv FileReceiver.initial Ledger.empty where
  opened := by
    intro o h
    simp [FileReceiver.initial] at h
  restNull := by
    intro _
    rfl
  shut := by
    intro _
    exact Or.inl rfl
  tailsLe := by
    simp [Ledger.empty]
  deliveriesLe := by
    simp [Ledger.empty]

theorem ackedBytes_snoc (l : Ledger) (r : FileRecord) :
    ({ l with acked := l.acked ++ [r] } : Ledger).ackedBytes =
      l.ackedBytes ++ r.bytes := by
  simp [Ledger.ackedBytes]

/-- An accepted head opens a fresh session whatever was left over. -/
theorem openSession_of_headAccepted
    {s : FileReceiver} {l : Ledger} {r : FileRecord}
    (hinv : LedgerInv s l)
    (hkind : r.kind = .head)
    (hok : r.AnnouncesTransfer) :
    OpenSession { s with ctx := openedCtx r }
      (l.note (r, .errorNone)) 0 r := by
  have htails := hinv.tailsLe
  simp only [Ledger.note, hkind, if_true]
  exact
    { head := rfl
      kind := hkind
      announced := hok
      notClosed := rfl
      undelivered := rfl
      pending := by
        simp only
        omega
      static := rfl
      offset := rfl
      bound := by
        simp [openedCtx]
      parity := by
        simp [openedCtx]
      content := rfl
      routed := by
        simp }

/-- An accepted data record moves the pointer, the counter and the content. -/
theorem openSession_of_dataStored
    {s : FileReceiver} {l : Ledger} {r h : FileRecord}
    {ptr : Nat} {rest : UInt32}
    (hopen : OpenSession s l ptr h)
    (hkind : r.kind = .data)
    (hfit : 2 * r.count.toNat ≤ s.ctx.recvBufRest.toNat)
    (hrest : rest.toNat = s.ctx.recvBufRest.toNat - 2 * r.count.toNat) :
    OpenSession
      { s with
        ctx := ⟨s.ctx.recvBuf, some (ptr + 2 * r.count.toNat), rest⟩
        mem := storePayload s.mem ptr r.payload }
      (l.note (r, .errorNone)) (ptr + 2 * r.count.toNat) h := by
  have hbound := hopen.bound
  have hparity := hopen.parity
  have hcontent := window_storePayload_extend s.mem ptr r.payload
  rw [length_payload, hopen.content] at hcontent
  simp only [Ledger.note, hkind, if_true]
  exact
    { head := hopen.head
      kind := hopen.kind
      announced := hopen.announced
      notClosed := hopen.notClosed
      undelivered := hopen.undelivered
      pending := hopen.pending
      static := hopen.static
      offset := by
        rw [ackedBytes_snoc, List.length_append, hopen.offset,
          length_bytes]
      bound := by
        simp only [hrest]
        omega
      parity := by
        simp only [hrest]
        omega
      content := by
        rw [ackedBytes_snoc]
        exact hcontent
      routed := by
        intro q hq
        simp only [List.mem_append, List.mem_singleton] at hq
        rcases hq with hq | rfl
        · exact hopen.routed q hq
        · exact hkind }

/--
A data record that is cut off stores behind the write pointer and counts down
to the parity of the remaining bytes; the session stays open.
-/
theorem openSession_of_dataCut
    {s : FileReceiver} {l : Ledger} {r h : FileRecord}
    {ptr : Nat} {rest : UInt32}
    (hopen : OpenSession s l ptr h)
    (hkind : r.kind = .data)
    (hrest : rest.toNat = s.ctx.recvBufRest.toNat % 2) :
    OpenSession
      { s with
        ctx := ⟨s.ctx.recvBuf, some ptr, rest⟩
        mem := storePayload s.mem ptr
          (r.payload.take (s.ctx.recvBufRest.toNat / 2)) }
      (l.note (r, .errorInvalidRequest)) ptr h := by
  have hbound := hopen.bound
  have hparity := hopen.parity
  simp only [Ledger.note, hkind, reduceCtorEq, if_false]
  exact
    { head := hopen.head
      kind := hopen.kind
      announced := hopen.announced
      notClosed := hopen.notClosed
      undelivered := hopen.undelivered
      pending := hopen.pending
      static := hopen.static
      offset := hopen.offset
      bound := by
        simp only [hrest]
        omega
      parity := by
        simp only [hrest]
        omega
      content := by
        rw [← hopen.content]
        exact window_storePayload_before _ _ (by omega)
      routed := hopen.routed }

/-- Invariant with an open session: the closed half is void. -/
theorem ledgerInv_of_openSession
    {s : FileReceiver} {l : Ledger} {o : Nat} {h : FileRecord}
    (hptr : s.ctx.recvBufPtr = some o)
    (hopen : OpenSession s l o h) :
    LedgerInv s l where
  opened := by
    intro o' ho'
    have ho : o = o' := by
      rw [hptr] at ho'
      exact Option.some.inj ho'
    subst o'
    exact ⟨h, hopen⟩
  restNull := by
    intro hnull
    rw [hptr] at hnull
    cases hnull
  shut := by
    intro hnull
    rw [hptr] at hnull
    cases hnull
  tailsLe := Nat.le_of_lt hopen.pending
  deliveriesLe := by
    rw [hopen.undelivered]
    omega

/-- Invariant after any tail: the pointer and the counter are cleared. -/
theorem ledgerInv_of_tail
    {s : FileReceiver} {l : Ledger} {r : FileRecord} {e : NmbsError}
    (hkind : r.kind = .tail)
    (hptr : s.ctx.recvBufPtr = none)
    (hrest : s.ctx.recvBufRest = 0)
    (hle : l.tails ≤ l.heads)
    (hdel : l.deliveries ≤ 1)
    (hnew : e = .errorNone → l.tails < l.heads ∧ l.deliveries = 0) :
    LedgerInv s (l.note (r, e)) where
  opened := by
    intro o ho
    rw [hptr] at ho
    cases ho
  restNull := by
    intro _
    exact hrest
  shut := by
    intro _
    right
    simp only [Ledger.note, hkind]
    split <;> rfl
  tailsLe := by
    simp only [Ledger.note, hkind]
    split
    · have h := (hnew ‹_›).1
      simp only
      omega
    · exact hle
  deliveriesLe := by
    simp only [Ledger.note, hkind]
    split
    · have h := (hnew ‹_›).2
      simp only
      omega
    · exact hdel

/-- One call keeps the invariant, whatever its outcome. -/
theorem ledgerInv_step
    (s : FileReceiver) (l : Ledger) (r : FileRecord)
    (hinv : LedgerInv s l) :
    LedgerInv (serverWriteFileRecord s r).2
      (l.note (r, (serverWriteFileRecord s r).1)) := by
  have hout := serverWriteFileRecord_outcome s r
  generalize serverWriteFileRecord s r = out at hout ⊢
  cases hout with
  | outOfRange hkind =>
      simpa [Ledger.note, hkind] using hinv
  | headRejected hkind hbad =>
      simpa [Ledger.note, hkind] using hinv
  | headAccepted hkind hok =>
      exact ledgerInv_of_openSession rfl
        (openSession_of_headAccepted hinv hkind hok)
  | tailDelivered hkind ptr buf hptr hrest hbuf =>
      obtain ⟨h, hopen⟩ := hinv.opened ptr hptr
      exact ledgerInv_of_tail hkind rfl rfl hinv.tailsLe
        hinv.deliveriesLe
        (fun _ => ⟨hopen.pending, hopen.undelivered⟩)
  | tailIncomplete hkind hptr hrest =>
      exact ledgerInv_of_tail hkind rfl rfl hinv.tailsLe
        hinv.deliveriesLe (fun he => by cases he)
  | tailWithoutBuffer hkind hptr hrest hbuf =>
      exact ledgerInv_of_tail hkind rfl rfl hinv.tailsLe
        hinv.deliveriesLe (fun he => by cases he)
  | tailClosed hkind hptr =>
      exact ledgerInv_of_tail hkind rfl rfl hinv.tailsLe
        hinv.deliveriesLe (fun he => by cases he)
  | dataClosed hkind hptr =>
      simpa [Ledger.note, hkind] using hinv
  | dataTooLong hkind hlen =>
      simpa [Ledger.note, hkind] using hinv
  | dataStored hkind ptr rest hptr hlen hfit hrest =>
      obtain ⟨h, hopen⟩ := hinv.opened ptr hptr
      exact ledgerInv_of_openSession rfl
        (openSession_of_dataStored hopen hkind hfit hrest)
  | dataCut hkind ptr rest hptr hlen hcut hrest =>
      obtain ⟨h, hopen⟩ := hinv.opened ptr hptr
      exact ledgerInv_of_openSession rfl
        (openSession_of_dataCut hopen hkind hrest)

/-- The invariant holds after every sequence of calls. -/
theorem ledgerInv_after (calls : List FileRecord) :
    LedgerInv (receiverAfter calls) (ledgerAfter calls) := by
  apply observed_run (G := fun _ _ => True)
  · intro s l r hinv _
    exact ledgerInv_step s l r hinv
  · exact ledgerInv_initial
  · exact stepsMeet_of_forall _ (fun _ _ => trivial) _ _

end Invariant

end Port
end ModbusRtu
