import Mathlib.Data.List.Infix
import ModbusRtu.Port.ReadSerialModel

/-!
# The receive ring is an exact FIFO

ReaderInv ties the wrapped indices to two unbounded numbers: the bytes the DMA
has written and the bytes the calls have read. The reader's index is the number
of bytes read, modulo the ring size, except in the middle of counting it up.
The sampled index is that of an earlier number of written bytes, which may be
behind the DMA but not behind the reader.

As long as fewer bytes are unread than the ring has, the two indices are equal
only when nothing sampled is left, and the slot at the reader's index holds the
next byte of the stream. So a step of a call reads the next byte or nothing,
and nothing else ever happens to the bytes read.
-/

namespace ModbusRtu
namespace Port

open Kernel

section ReaderInvariant

/-- The sampled index belongs to a number of written bytes near n. -/
def Sampled (p : SerialPort) (c : ReadCall) (n : Nat) : Prop :=
  ∃ w, n ≤ w ∧ w ≤ p.written ∧ w < n + uart2RxDmaBufSize ∧
    c.dmaPos.toNat = w % uart2RxDmaBufSize

/-- Where the reader's index is after n bytes, at each control point. -/
def PointInv (p : SerialPort) (c : ReadCall) (n : Nat) : Prop :=
  match c.point with
  | .outerTest | .sample | .timeout | .finish =>
      p.uart2RxDmaLastPos.toNat = n % uart2RxDmaBufSize
  | .innerTest =>
      p.uart2RxDmaLastPos.toNat = n % uart2RxDmaBufSize ∧ Sampled p c n
  | .copy =>
      p.uart2RxDmaLastPos.toNat = n % uart2RxDmaBufSize ∧
        Sampled p c n ∧
        p.uart2RxDmaLastPos ≠ c.dmaPos ∧
        c.received.toNat < c.count.toNat
  | .advance =>
      ∃ m, n = m + 1 ∧
        p.uart2RxDmaLastPos.toNat = m % uart2RxDmaBufSize ∧
        Sampled p c n
  | .wrap =>
      ∃ m, n = m + 1 ∧
        p.uart2RxDmaLastPos.toNat = m % uart2RxDmaBufSize + 1 ∧
        Sampled p c n

/-- What holds of the port when n bytes of the stream have been read. -/
structure ReaderInv (stream : ByteMem) (p : SerialPort) (n : Nat) :
    Prop where
  ahead : n ≤ p.written
  ring : RingHolds uart2RxDmaBufSize stream p.uart2RxDmaBuf p.written
  idle : p.call = none →
    p.uart2RxDmaLastPos.toNat = n % uart2RxDmaBufSize
  busy : ∀ c, p.call = some c →
    c.received.toNat ≤ c.count.toNat ∧ PointInv p c n

theorem readerInv_initial (stream : ByteMem) :
    ReaderInv stream SerialPort.initial 0 where
  ahead := Nat.le_refl 0
  ring := ringHolds_zero
  idle := by
    intro _
    rfl
  busy := by
    intro c hc
    cases hc

/-- The DMA runs ahead without disturbing what the reader relies on. -/
theorem readerInv_dmaStore
    {stream : ByteMem} {p : SerialPort} {n : Nat}
    (hinv : ReaderInv stream p n) :
    ReaderInv stream (dmaStore stream p) n where
  ahead := Nat.le_succ_of_le hinv.ahead
  ring := ringHolds_write hinv.ring
  idle := hinv.idle
  busy := by
    intro c hc
    obtain ⟨hle, hpoint⟩ := hinv.busy c hc
    refine ⟨hle, ?_⟩
    have hsampled : Sampled p c n → Sampled (dmaStore stream p) c n := by
      rintro ⟨w, hn, hw, hnear, hpos⟩
      exact ⟨w, hn, Nat.le_succ_of_le hw, hnear, hpos⟩
    unfold PointInv at hpoint ⊢
    cases hat : c.point with
    | outerTest | sample | timeout | finish =>
        simp only [hat] at hpoint ⊢
        exact hpoint
    | innerTest =>
        simp only [hat] at hpoint ⊢
        exact ⟨hpoint.1, hsampled hpoint.2⟩
    | copy =>
        simp only [hat] at hpoint ⊢
        exact ⟨hpoint.1, hsampled hpoint.2.1, hpoint.2.2⟩
    | advance | wrap =>
        simp only [hat] at hpoint ⊢
        obtain ⟨m, hm, hpos, hsam⟩ := hpoint
        exact ⟨m, hm, hpos, hsampled hsam⟩

/-- A new call starts at the index where the last one stopped. -/
theorem readerInv_call
    {stream : ByteMem} {p : SerialPort} {n : Nat}
    (hinv : ReaderInv stream p n)
    (hidle : p.call = none)
    (buf : ByteMem) (count : UInt16) (byteTimeoutMs : Int32)
    (tick : UInt32) :
    ReaderInv stream
      (p.resume (readSerial buf count byteTimeoutMs tick)) n where
  ahead := hinv.ahead
  ring := hinv.ring
  idle := by
    intro hnone
    cases hnone
  busy := by
    intro c hc
    have hnew := Option.some.inj hc
    subst hnew
    exact ⟨Nat.zero_le _, hinv.idle hidle⟩

end ReaderInvariant

section Move

/--
One step reads nothing, or it reads byte n of the stream; either way the
invariant is kept for the bytes then read.
-/
inductive ReadsNext (stream : ByteMem) (p : SerialPort) (n : Nat) :
    Option ReadReturn × SerialPort → Prop
  | nothing {reply : Option ReadReturn} {p' : SerialPort}
      (hbytes : returnedBytes reply ++ p'.stored = p.stored)
      (hinv : ReaderInv stream p' n) :
      ReadsNext stream p n (reply, p')
  | byte {p' : SerialPort}
      (hbytes : p'.stored = p.stored ++ [stream n])
      (hinv : ReaderInv stream p' (n + 1)) :
      ReadsNext stream p n (none, p')

/-- A move that keeps ring and bytes reads nothing. -/
theorem readsNext_of_resume
    {stream : ByteMem} {p : SerialPort} {c c' : ReadCall} {n : Nat}
    (hinv : ReaderInv stream p n)
    (hcall : p.call = some c)
    (pos : UInt16)
    (hbuf : c'.buf = c.buf)
    (hreceived : c'.received = c.received)
    (hcount : c'.count = c.count)
    (hpoint :
      PointInv { p with uart2RxDmaLastPos := pos, call := some c' } c' n) :
    ReadsNext stream p n
      (none, { p with uart2RxDmaLastPos := pos, call := some c' }) := by
  apply ReadsNext.nothing
  · simp [returnedBytes, SerialPort.stored, hcall, hbuf, hreceived]
  · refine ⟨hinv.ahead, hinv.ring, (fun hnone => by cases hnone), ?_⟩
    intro d hd
    have hnew := Option.some.inj hd
    subst hnew
    rw [hreceived, hcount]
    exact ⟨(hinv.busy c hcall).1, hpoint⟩

/-- Below the count the number of received bytes does not wrap around. -/
theorem toNat_received_succ
    {c : ReadCall} (hmore : c.received.toNat < c.count.toNat) :
    (c.received + 1).toNat = c.received.toNat + 1 := by
  have hcount := c.count.toNat_lt
  rw [UInt16.toNat_add, UInt16.toNat_one]
  omega

/-- The copied byte is the next one of the stream. -/
theorem readsNext_of_copy
    {stream : ByteMem} {p : SerialPort} {c : ReadCall} {n : Nat}
    (hinv : ReaderInv stream p n)
    (hcall : p.call = some c)
    (hat : c.point = .copy)
    (hunread : p.written < n + uart2RxDmaBufSize) :
    ReadsNext stream p n
      (none,
        p.resume
          { c with
            buf := Function.update c.buf c.received.toNat
              (p.uart2RxDmaBuf p.uart2RxDmaLastPos.toNat)
            received := c.received + 1
            point := .advance }) := by
  have hpoint := (hinv.busy c hcall).2
  simp only [PointInv, hat] at hpoint
  obtain ⟨hpos, ⟨w, hn, hw, hnear, hdma⟩, hne, hmore⟩ := hpoint
  have hbehind : n ≠ w := by
    rintro rfl
    apply hne
    refine UInt16.toNat_inj.mp ?_
    rw [hpos, hdma]
  have hbyte :
      p.uart2RxDmaBuf p.uart2RxDmaLastPos.toNat = stream n := by
    rw [hpos]
    exact hinv.ring n (by omega) (by omega)
  have hreceived := toNat_received_succ hmore
  apply ReadsNext.byte
  · have hend := window_update_end c.buf 0 c.received.toNat (stream n)
    rw [Nat.zero_add] at hend
    simp only [SerialPort.stored, SerialPort.resume, hcall, hreceived,
      hbyte]
    exact hend
  · refine ⟨by simp only [SerialPort.resume]; omega, hinv.ring,
      (fun hnone => by cases hnone), ?_⟩
    intro d hd
    have hnew := Option.some.inj hd
    subst hnew
    refine ⟨by simp only [hreceived]; omega, n, rfl, hpos, w, ?_⟩
    exact ⟨by omega, hw, by omega, hdma⟩

/-- Every move of a call reads the next byte of the stream or nothing. -/
theorem readsNext_of_move
    {stream : ByteMem} {p : SerialPort} {c : ReadCall} {n : Nat}
    {tick : UInt32} {out : Option ReadReturn × SerialPort}
    (hinv : ReaderInv stream p n)
    (hcall : p.call = some c)
    (hunread : p.written < n + uart2RxDmaBufSize)
    (hmove : ReadMove p c tick out) :
    ReadsNext stream p n out := by
  have hpoint := (hinv.busy c hcall).2
  have hahead := hinv.ahead
  cases hmove with
  | enter hat | leave hat =>
      simp only [PointInv, hat] at hpoint
      exact readsNext_of_resume hinv hcall p.uart2RxDmaLastPos
        rfl rfl rfl hpoint
  | sampled hat dmaPos hdma =>
      simp only [PointInv, hat] at hpoint
      exact readsNext_of_resume hinv hcall p.uart2RxDmaLastPos
        rfl rfl rfl
        ⟨hpoint, p.written, hahead, Nat.le_refl _, hunread, hdma⟩
  | unread hat hne hmore =>
      simp only [PointInv, hat] at hpoint
      exact readsNext_of_resume hinv hcall p.uart2RxDmaLastPos
        rfl rfl rfl ⟨hpoint.1, hpoint.2, hne, hmore⟩
  | drained hat hstop =>
      simp only [PointInv, hat] at hpoint
      exact readsNext_of_resume hinv hcall p.uart2RxDmaLastPos
        rfl rfl rfl hpoint.1
  | copied hat =>
      exact readsNext_of_copy hinv hcall hat hunread
  | advanced hat =>
      simp only [PointInv, hat] at hpoint
      obtain ⟨m, rfl, hpos, hsampled⟩ := hpoint
      have hmod := Nat.mod_lt m uart2RxDmaBufSize_pos
      refine readsNext_of_resume hinv hcall _ rfl rfl rfl
        ⟨m, rfl, ?_, hsampled⟩
      simp only [uart2RxDmaBufSize] at hpos hmod ⊢
      simp only [UInt16.toNat_add, UInt16.toNat_one, hpos]
      omega
  | wrapped hat hend =>
      simp only [PointInv, hat] at hpoint
      obtain ⟨m, rfl, hpos, hsampled⟩ := hpoint
      refine readsNext_of_resume hinv hcall 0 rfl rfl rfl
        ⟨?_, hsampled⟩
      rw [succ_mod_of_ge uart2RxDmaBufSize_pos (by omega)]
      rfl
  | inside hat hlt =>
      simp only [PointInv, hat] at hpoint
      obtain ⟨m, rfl, hpos, hsampled⟩ := hpoint
      refine readsNext_of_resume hinv hcall p.uart2RxDmaLastPos
        rfl rfl rfl ⟨?_, hsampled⟩
      rw [succ_mod_of_lt (by omega)]
      exact hpos
  | expired hat | waiting hat =>
      simp only [PointInv, hat] at hpoint
      exact readsNext_of_resume hinv hcall p.uart2RxDmaLastPos
        rfl rfl rfl hpoint
  | returned hat =>
      simp only [PointInv, hat] at hpoint
      apply ReadsNext.nothing
      · simp [returnedBytes, SerialPort.stored, hcall]
      · exact ⟨hahead, hinv.ring, fun _ => hpoint, fun d hd => by cases hd⟩

/-- Every event reads the next byte of the stream or nothing. -/
theorem readsNext_step
    {stream : ByteMem} {p : SerialPort} {n : Nat}
    (hinv : ReaderInv stream p n)
    (hunread : p.written < n + uart2RxDmaBufSize) (e : SerialEvent) :
    ReadsNext stream p n (serialStep stream p e) := by
  have hsame : ReadsNext stream p n (none, p) :=
    ReadsNext.nothing rfl hinv
  cases e with
  | dmaByte =>
      exact ReadsNext.nothing rfl (readerInv_dmaStore hinv)
  | call buf count byteTimeoutMs tick =>
      simp only [serialStep]
      cases hcall : p.call with
      | none =>
          apply ReadsNext.nothing
          · simp [returnedBytes, SerialPort.stored, SerialPort.resume,
              readSerial, hcall]
          · exact readerInv_call hinv hcall buf count byteTimeoutMs tick
      | some c =>
          exact hsame
  | step tick =>
      simp only [serialStep]
      cases hcall : p.call with
      | none =>
          exact hsame
      | some c =>
          exact readsNext_of_move hinv hcall hunread
            (readSerialStep_move p c tick)

end Move

section Fifo

/-- At every moment of the run fewer bytes are unread than the ring has. -/
def UnreadFits (stream : ByteMem) (events : List SerialEvent) : Prop :=
  ∀ pre, pre <+: events →
    (portAfter stream pre).written <
      (readAfter stream pre).length + uart2RxDmaBufSize

/-- Number of bytes that arrive in a sequence of events. -/
def arrivals (events : List SerialEvent) : Nat :=
  events.countP fun
    | .dmaByte => true
    | .call _ _ _ _ | .step _ => false

/-- A call does nothing to the ring and to the bytes written. -/
theorem readSerialStep_ring
    (p : SerialPort) (c : ReadCall) (tick : UInt32) :
    (readSerialStep p c tick).2.uart2RxDmaBuf = p.uart2RxDmaBuf ∧
      (readSerialStep p c tick).2.written = p.written := by
  have hmove := readSerialStep_move p c tick
  generalize readSerialStep p c tick = out at hmove ⊢
  cases hmove with
  | enter | leave | sampled | unread | drained | copied | advanced
  | wrapped | inside | expired | waiting | returned =>
      exact ⟨rfl, rfl⟩

/-- Only an arriving byte changes the ring and the bytes written. -/
theorem serialStep_ring
    (stream : ByteMem) (p : SerialPort) (e : SerialEvent) :
    (e = .dmaByte ∧ (serialStep stream p e).2 = dmaStore stream p) ∨
      (e ≠ .dmaByte ∧
        (serialStep stream p e).2.uart2RxDmaBuf = p.uart2RxDmaBuf ∧
        (serialStep stream p e).2.written = p.written) := by
  cases e with
  | dmaByte =>
      exact Or.inl ⟨rfl, rfl⟩
  | call buf count byteTimeoutMs tick =>
      refine Or.inr ⟨by simp, ?_⟩
      simp only [serialStep]
      cases p.call <;> exact ⟨rfl, rfl⟩
  | step tick =>
      refine Or.inr ⟨by simp, ?_⟩
      simp only [serialStep]
      cases p.call with
      | none =>
          exact ⟨rfl, rfl⟩
      | some c =>
          exact readSerialStep_ring p c tick

/-- The bytes written are the bytes that have arrived. -/
theorem written_runState
    (stream : ByteMem) (p : SerialPort) (events : List SerialEvent) :
    (runState (serialStep stream) p events).written =
      p.written + arrivals events := by
  induction events generalizing p with
  | nil =>
      rfl
  | cons e events ih =>
      rw [runState_cons, ih]
      rcases serialStep_ring stream p e with
        ⟨rfl, hstore⟩ | ⟨hother, _, hsame⟩
      · rw [hstore]
        simp only [dmaStore, arrivals, List.countP_cons]
        simp
        omega
      · rw [hsame]
        cases e with
        | dmaByte =>
            exact absurd rfl hother
        | call | step =>
            simp [arrivals]

/-- Every run leaves the ring filled with the last bytes that arrived. -/
theorem ringHolds_portAfter
    (stream : ByteMem) (events : List SerialEvent) :
    RingHolds uart2RxDmaBufSize stream
      (portAfter stream events).uart2RxDmaBuf
      (portAfter stream events).written := by
  refine invariant_run (G := fun _ _ => True)
    (P := fun p : SerialPort => RingHolds uart2RxDmaBufSize stream
      p.uart2RxDmaBuf p.written)
    ?_ ringHolds_zero (stepsMeet_of_forall _ (fun _ _ => trivial) _ _)
  intro p e hholds _
  rcases serialStep_ring stream p e with
    ⟨_, hstore⟩ | ⟨_, hring, hwritten⟩
  · rw [hstore]
    exact ringHolds_write hholds
  · rw [hring, hwritten]
    exact hholds

/-- The unread bytes fit as long as fewer arrive than the ring has. -/
theorem unreadFits_of_arrivals
    {events : List SerialEvent} (stream : ByteMem)
    (hfew : arrivals events < uart2RxDmaBufSize) :
    UnreadFits stream events := by
  rintro pre ⟨post, rfl⟩
  have hwritten := written_runState stream SerialPort.initial pre
  have hmono : arrivals pre ≤ arrivals (pre ++ post) := by
    simp [arrivals]
  simp only [SerialPort.initial, Nat.zero_add] at hwritten
  rw [portAfter, SerialPort.initial, hwritten]
  omega

/-- One more event reads nothing or appends the next byte. -/
theorem readAfter_snoc_cases
    {stream : ByteMem} {pre : List SerialEvent} {e : SerialEvent} {n : Nat}
    (hread : ReadsNext stream (portAfter stream pre) n
      (serialStep stream (portAfter stream pre) e)) :
    (readAfter stream (pre ++ [e]) = readAfter stream pre ∧
      ReaderInv stream (portAfter stream (pre ++ [e])) n) ∨
    (readAfter stream (pre ++ [e]) = readAfter stream pre ++ [stream n] ∧
      ReaderInv stream (portAfter stream (pre ++ [e])) (n + 1)) := by
  obtain ⟨hport, hreturned⟩ := portAfter_snoc stream pre e
  unfold readAfter
  rw [hport, hreturned, List.append_assoc, List.append_assoc]
  generalize serialStep stream (portAfter stream pre) e = out at hread ⊢
  cases hread with
  | nothing hbytes hinv =>
      left
      rw [hbytes]
      exact ⟨rfl, hinv⟩
  | byte hbytes hinv =>
      right
      rw [hbytes]
      exact ⟨rfl, hinv⟩

/-- The bytes read are the first of the stream, and the invariant holds. -/
theorem readerInv_run
    {stream : ByteMem} {events : List SerialEvent}
    (hfits : UnreadFits stream events) :
    readAfter stream events =
        window stream 0 (readAfter stream events).length ∧
      ReaderInv stream (portAfter stream events)
        (readAfter stream events).length := by
  induction events using List.reverseRecOn with
  | nil =>
      exact ⟨rfl, readerInv_initial stream⟩
  | append_singleton pre e ih =>
      obtain ⟨hcontent, hinv⟩ :=
        ih (fun q hq => hfits q (hq.trans ⟨[e], rfl⟩))
      have hread := readsNext_step hinv (hfits pre ⟨[e], rfl⟩) e
      rcases readAfter_snoc_cases hread with
        ⟨hnothing, hinv'⟩ | ⟨hbyte, hinv'⟩
      · rw [hnothing]
        exact ⟨hcontent, hinv'⟩
      · rw [hbyte, List.length_append, List.length_singleton]
        refine ⟨?_, hinv'⟩
        rw [window_add, ← hcontent, Nat.zero_add]
        rfl

/-- Without a call in progress all bytes read have been returned. -/
theorem readAfter_of_idle
    {stream : ByteMem} {events : List SerialEvent}
    (hidle : (portAfter stream events).call = none) :
    readAfter stream events = returnedAfter stream events := by
  simp only [readAfter, SerialPort.stored, hidle, List.append_nil]

/-- A call returns at most what it was asked for. -/
theorem return_within_count
    {stream : ByteMem} {p : SerialPort} {n : Nat} {e : SerialEvent}
    {r : ReadReturn}
    (hinv : ReaderInv stream p n)
    (hreturn : (serialStep stream p e).1 = some r) :
    r.received.toNat ≤ r.count.toNat ∧
      r.bytes.length = r.received.toNat := by
  cases e with
  | dmaByte =>
      cases hreturn
  | call buf count byteTimeoutMs tick =>
      simp only [serialStep] at hreturn
      cases hcall : p.call <;> simp [hcall] at hreturn
  | step tick =>
      simp only [serialStep] at hreturn
      cases hcall : p.call with
      | none =>
          simp [hcall] at hreturn
      | some c =>
          simp only [hcall] at hreturn
          have hmove := readSerialStep_move p c tick
          generalize readSerialStep p c tick = out at hmove hreturn
          cases hmove with
          | returned =>
              have hr := Option.some.inj hreturn
              subst hr
              exact ⟨(hinv.busy c hcall).1, length_window _ _ _⟩
          | enter | leave | sampled | unread | drained | copied
          | advanced | wrapped | inside | expired | waiting =>
              cases hreturn

/--
The DMA ring is an exact FIFO. In every interleaving in which at every moment
fewer bytes are unread than the ring has, the bytes that the calls have stored
are the first bytes of the stream, none of them read before it was written;
whenever no call is in progress the reader's index is the number of bytes
returned, modulo the ring size; and no call returns more than its count.
-/
theorem dma_ring_fifo
    (stream : ByteMem) (events : List SerialEvent)
    (hfits : UnreadFits stream events) :
    (∃ n, n ≤ (portAfter stream events).written ∧
      readAfter stream events = window stream 0 n) ∧
    ((portAfter stream events).call = none →
      (portAfter stream events).uart2RxDmaLastPos.toNat =
        (returnedAfter stream events).length % uart2RxDmaBufSize) ∧
    ∀ r, some r ∈ runReplies (serialStep stream)
        SerialPort.initial events →
      r.received.toNat ≤ r.count.toNat ∧
        r.bytes.length = r.received.toNat := by
  obtain ⟨hcontent, hinv⟩ := readerInv_run hfits
  refine ⟨⟨_, hinv.ahead, hcontent⟩, ?_, ?_⟩
  · intro hidle
    rw [hinv.idle hidle, readAfter_of_idle hidle]
  · have hsteps :
        StepsMeet (serialStep stream)
          (fun p e => ∀ r, (serialStep stream p e).1 = some r →
            r.received.toNat ≤ r.count.toNat ∧
              r.bytes.length = r.received.toNat)
          SerialPort.initial events := by
      rw [stepsMeet_iff_forall_split]
      rintro pre e post rfl r hr
      have hbefore : UnreadFits stream pre := by
        intro q hq
        exact hfits q (hq.trans ⟨e :: post, rfl⟩)
      exact return_within_count (readerInv_run hbefore).2 hr
    have hreplies :=
      (forall_mem_runReplies_iff (serialStep stream)
        (fun o => ∀ r, o = some r →
          r.received.toNat ≤ r.count.toNat ∧
            r.bytes.length = r.received.toNat)
        SerialPort.initial events).mpr hsteps
    intro r hr
    exact hreplies (some r) hr r rfl

/-- A stream of letters. -/
def letters : ByteMem := fun k => UInt8.ofNat (65 + k)

/-- Two bytes arrive, the second during a call that asks for one. -/
def oneByteRead : List SerialEvent :=
  [.dmaByte, .call (fun _ => 0) 1 0 7, .step 7, .step 7, .dmaByte] ++
    List.replicate 7 (.step 7)

/-- The call returns the first of the two letters. -/
theorem dma_ring_fifo_oneByteRead :
    UnreadFits letters oneByteRead ∧
      returnedAfter letters oneByteRead = [65] ∧
      (portAfter letters oneByteRead).uart2RxDmaLastPos.toNat = 1 := by
  have hfits : UnreadFits letters oneByteRead :=
    unreadFits_of_arrivals letters (by decide)
  have hfifo := dma_ring_fifo letters oneByteRead hfits
  have hreturned : returnedAfter letters oneByteRead = [65] := by
    decide
  have hpos := hfifo.2.1 rfl
  rw [hreturned] at hpos
  exact ⟨hfits, hreturned, hpos⟩

end Fifo

end Port
end ModbusRtu
