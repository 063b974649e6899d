import ModbusRtu.Port.ReadSerialFifo

/-!
# One call of read_serial, watched

A call that begins on an idle port is followed until it returns. Every event
of the call carries the number of ticks that have passed since the call began;
the tick counter itself has 32 bits and may wrap around in between, but the
difference that the code computes is that number as long as it has 32 bits.

The port is run together with a log that notes what each sample of the DMA
index saw and when each timeout check was made. The log is only written, so
the watched port does what the port does. CallInv says what the log tells
about the call: how many bytes it has stored, which they are, and why it left
its loop.
-/

namespace ModbusRtu
namespace Port

open Kernel

section Watch

/-- The arguments of a call and the tick at which it begins. -/
structure ReadArgs where
  buf : ByteMem
  count : UInt16
  byteTimeoutMs : Int32
  start : UInt32

/-- The event with which the call begins. -/
def ReadArgs.event (a : ReadArgs) : SerialEvent :=
  .call a.buf a.count a.byteTimeoutMs a.start

/-- Ticks after which the call gives up; of use when it is not negative. -/
def ReadArgs.limit (a : ReadArgs) : Nat :=
  a.byteTimeoutMs.toNatClampNeg

/-- What may happen during a call, so many ticks after it began. -/
inductive CallEvent
  | dmaByte (elapsed : Nat)
  | step (elapsed : Nat)

/-- The ticks that have passed since the call began. -/
def CallEvent.elapsed : CallEvent → Nat
  | .dmaByte elapsed => elapsed
  | .step elapsed => elapsed

/-- The event of the port, for a call that began at a tick. -/
def CallEvent.serialEvent (start : UInt32) : CallEvent → SerialEvent
  | .dmaByte _ => .dmaByte
  | .step elapsed => .step (start + UInt32.ofNat elapsed)

/-- The ticks passed at the steps of the call, in order. -/
def tickReadings (during : List CallEvent) : List Nat :=
  during.filterMap fun
    | .dmaByte _ => none
    | .step elapsed => some elapsed

/-- A sample of the DMA index: bytes written by then, and ticks passed. -/
structure PollSample where
  written : Nat
  elapsed : Nat

/-- The samples and the timeout checks of a call, in order. -/
structure CallLog where
  samples : List PollSample
  checks : List Nat

/-- The log after one more event. -/
def CallLog.note (log : CallLog) (p : SerialPort) : CallEvent → CallLog
  | .dmaByte _ => log
  | .step elapsed =>
      match p.call.map ReadCall.point with
      | some .sample =>
          { log with samples := log.samples ++ [⟨p.written, elapsed⟩] }
      | some .timeout =>
          { log with checks := log.checks ++ [elapsed] }
      | _ => log

/-- A sample that is noted at an event saw what was written by then. -/
theorem CallLog.mem_samples_note
    {log : CallLog} {p : SerialPort} {e : CallEvent} {sample : PollSample}
    (hmem : sample ∈ (log.note p e).samples) :
    sample ∈ log.samples ∨
      (e = .step sample.elapsed ∧ sample.written = p.written) := by
  cases e with
  | dmaByte elapsed =>
      exact Or.inl hmem
  | step elapsed =>
      simp only [CallLog.note] at hmem
      split at hmem
      · rw [List.mem_append, List.mem_singleton] at hmem
        rcases hmem with hold | rfl
        · exact Or.inl hold
        · exact Or.inr ⟨rfl, rfl⟩
      · exact Or.inl hmem
      · exact Or.inl hmem

/-- A port together with the log of its call. -/
structure WatchedPort where
  port : SerialPort
  log : CallLog

/-- One event of a watched port. -/
def watchStep (stream : ByteMem) (start : UInt32)
    (s : WatchedPort) (e : CallEvent) :
    Option ReadReturn × WatchedPort :=
  ((serialStep stream s.port (e.serialEvent start)).1,
    { port := (serialStep stream s.port (e.serialEvent start)).2
      log := s.log.note s.port e })

/-- The watched port right after a call has begun on an idle port. -/
def ReadArgs.begun (a : ReadArgs) (p : SerialPort) : WatchedPort where
  port := p.resume (readSerial a.buf a.count a.byteTimeoutMs a.start)
  log := { samples := [], checks := [] }

/-- On an idle port the event of a call begins it and answers nothing. -/
theorem serialStep_event
    (stream : ByteMem) (a : ReadArgs) {p : SerialPort}
    (hidle : p.call = none) :
    serialStep stream p a.event = (none, (a.begun p).port) := by
  simp only [serialStep, ReadArgs.event, hidle]
  rfl

/-- Watching changes neither the replies nor the port. -/
theorem watched_run
    (stream : ByteMem) (start : UInt32) (s : WatchedPort)
    (during : List CallEvent) :
    runReplies (watchStep stream start) s during =
        runReplies (serialStep stream) s.port
          (during.map (CallEvent.serialEvent start)) ∧
      (runState (watchStep stream start) s during).port =
        runState (serialStep stream) s.port
          (during.map (CallEvent.serialEvent start)) := by
  induction during generalizing s with
  | nil =>
      exact ⟨rfl, rfl⟩
  | cons e during ih =>
      obtain ⟨hreplies, hport⟩ := ih (watchStep stream start s e).2
      constructor
      · rw [runReplies_cons, hreplies]
        rfl
      · exact hport

end Watch

section Ticks

/-- The difference of the tick counters is the number of ticks passed. -/
theorem toNat_tick_sub_start
    (start : UInt32) {elapsed : Nat} (hlt : elapsed < 4294967296) :
    (start + UInt32.ofNat elapsed - start).toNat = elapsed := by
  have hstart := start.toNat_lt
  rw [UInt32.toNat_sub, UInt32.toNat_add, UInt32.toNat_ofNat']
  omega

/-- The comparison of the code is the comparison of the numbers. -/
theorem limit_reached_iff
    {a : ReadArgs} (hlimit : 0 ≤ a.byteTimeoutMs)
    {elapsed : Nat} (hlt : elapsed < 4294967296) :
    a.byteTimeoutMs.toUInt32 ≤
        a.start + UInt32.ofNat elapsed - a.start ↔
      a.limit ≤ elapsed := by
  rw [UInt32.le_iff_toNat_le, toNat_tick_sub_start a.start hlt,
    Int32.toNat_toUInt32_of_le hlimit]
  rfl

end Ticks

section CallInvariant

/-- A sample has been taken whose timeout check is still to come. -/
def ReadPoint.unchecked : ReadPoint → Bool
  | .innerTest | .copy | .advance | .wrap | .timeout => true
  | .outerTest | .sample | .finish => false

/-- The inner loop is being run. -/
def ReadPoint.draining : ReadPoint → Bool
  | .innerTest | .copy | .advance | .wrap => true
  | .outerTest | .sample | .timeout | .finish => false

/-- Bytes written by the last sample; n before there is one. -/
def CallLog.lastWritten (n : Nat) (log : CallLog) : Nat :=
  match log.samples.getLast? with
  | none => n
  | some sample => sample.written

/-- All checks were made before the deadline. -/
def Early (a : ReadArgs) (checks : List Nat) : Prop :=
  ∀ elapsed ∈ checks, elapsed < a.limit

/-- The last check, and no other, was made at or after the deadline. -/
def Expired (a : ReadArgs) (checks : List Nat) : Prop :=
  ∃ early elapsed, checks = early ++ [elapsed] ∧ Early a early ∧
    a.limit ≤ elapsed

/-- What the log says about a call that began when n bytes had been read. -/
structure LogInv (n : Nat) (a : ReadArgs) (c : ReadCall) (log : CallLog) :
    Prop where
  balance : log.samples.length =
    log.checks.length + (if c.point.unchecked then 1 else 0)
  early : c.point ≠ .finish → Early a log.checks
  ended : c.point = .finish →
    (c.received.toNat = a.count.toNat ∧ Early a log.checks) ∨
      Expired a log.checks
  drained : c.point.draining = false →
    n + c.received.toNat =
      min (n + a.count.toNat) (log.lastWritten n)
  draining : c.point.draining = true →
    n + c.received.toNat ≤ log.lastWritten n ∧
      log.lastWritten n < n + c.received.toNat + uart2RxDmaBufSize ∧
      c.dmaPos.toNat = log.lastWritten n % uart2RxDmaBufSize
  first : ∀ sample, log.samples.head? = some sample →
    sample.written < n + uart2RxDmaBufSize

/-- What holds of a watched call that began when n bytes had been read. -/
structure CallInv (stream : ByteMem) (n : Nat) (a : ReadArgs)
    (s : WatchedPort) (c : ReadCall) : Prop where
  call : s.port.call = some c
  count : c.count = a.count
  byteTimeoutMs : c.byteTimeoutMs = a.byteTimeoutMs
  start : c.start = a.start
  reader : ReaderInv stream s.port (n + c.received.toNat)
  content : window c.buf 0 c.received.toNat =
    window stream n c.received.toNat
  frame : ∀ k, c.received.toNat ≤ k → c.buf k = a.buf k
  logged : LogInv n a c s.log

theorem callInv_begun
    {stream : ByteMem} {p : SerialPort} {n : Nat}
    (hinv : ReaderInv stream p n)
    (hidle : p.call = none)
    (a : ReadArgs) :
    CallInv stream n a (a.begun p)
      (readSerial a.buf a.count a.byteTimeoutMs a.start) where
  call := rfl
  count := rfl
  byteTimeoutMs := rfl
  start := rfl
  reader := readerInv_call hinv hidle _ _ _ _
  content := rfl
  frame := fun _ _ => rfl
  logged :=
    { balance := rfl
      early := by
        intro _ elapsed helapsed
        cases helapsed
      ended := by
        intro hfinish
        cases hfinish
      drained := by
        intro _
        simp [ReadArgs.begun, readSerial, CallLog.lastWritten]
      draining := by
        intro hdraining
        cases hdraining
      first := by
        intro sample hsample
        cases hsample }

/-- A byte that arrives does not concern the call. -/
theorem callInv_dmaByte
    {stream : ByteMem} {n : Nat} {a : ReadArgs} {s : WatchedPort}
    {c : ReadCall}
    (hinv : CallInv stream n a s c) (elapsed : Nat) :
    CallInv stream n a
      (watchStep stream a.start s (.dmaByte elapsed)).2 c :=
  { hinv with reader := readerInv_dmaStore hinv.reader }

end CallInvariant

section LogMoves

variable {n : Nat} {a : ReadArgs} {c c' : ReadCall} {log : CallLog}

@[simp] theorem lastWritten_snoc
    (n : Nat) (samples : List PollSample) (sample : PollSample)
    (checks : List Nat) :
    CallLog.lastWritten n
        { samples := samples ++ [sample], checks := checks } =
      sample.written := by
  simp [CallLog.lastWritten]

theorem early_snoc
    {checks : List Nat} {elapsed : Nat}
    (hchecks : Early a checks)
    (hnow : elapsed < a.limit) :
    Early a (checks ++ [elapsed]) := by
  intro e he
  rcases List.mem_append.mp he with hold | hnew
  · exact hchecks e hold
  · rw [List.mem_singleton.mp hnew]
    exact hnow

/-- How many samples have been checked, as the control point says it. -/
theorem LogInv.balance_at
    {point : ReadPoint}
    (hinv : LogInv n a c log)
    (hat : c.point = point) :
    log.samples.length =
      log.checks.length + (if point.unchecked then 1 else 0) := by
  rw [← hat]
  exact hinv.balance

/-- At the end of a call every sample has been checked. -/
theorem LogInv.allChecked
    (hinv : LogInv n a c log)
    (hat : c.point = .finish) :
    log.samples.length = log.checks.length := by
  exact hinv.balance_at hat

/-- A call that has made a check before its end has taken a sample. -/
theorem LogInv.samples_ne_nil
    (hinv : LogInv n a c log)
    (hat : c.point = .finish)
    {early : List Nat} {elapsed : Nat}
    (hchecks : log.checks = early ++ [elapsed]) :
    log.samples ≠ [] := by
  have hbalance := hinv.allChecked hat
  rw [hchecks, List.length_append, List.length_singleton] at hbalance
  exact List.ne_nil_of_length_eq_add_one hbalance

/-- A move between points of one kind, with nothing read or noted. -/
theorem LogInv.moved
    {point next : ReadPoint}
    (hinv : LogInv n a c log)
    (hat : c.point = point)
    (hunchecked : next.unchecked = point.unchecked)
    (hdraining : next.draining = point.draining)
    (hfrom : point ≠ .finish)
    (hto : next ≠ .finish) :
    LogInv n a { c with point := next } log where
  balance := by
    rw [hunchecked]
    exact hinv.balance_at hat
  early := by
    intro _
    exact hinv.early (by rw [hat]; exact hfrom)
  ended := fun hfinish => absurd hfinish hto
  drained := by
    rw [hdraining, ← hat]
    exact hinv.drained
  draining := by
    rw [hdraining, ← hat]
    exact hinv.draining
  first := hinv.first

/-- The outer loop ends when all bytes asked for have been received. -/
theorem LogInv.left
    (hinv : LogInv n a c log)
    (hat : c.point = .outerTest)
    (hreceived : c.received.toNat = a.count.toNat) :
    LogInv n a { c with point := .finish } log where
  balance := by
    rw [hinv.balance_at hat]
    rfl
  early := fun hnot => absurd rfl hnot
  ended := by
    intro _
    exact Or.inl ⟨hreceived, hinv.early (by simp [hat])⟩
  drained := by
    intro _
    exact hinv.drained (by rw [hat]; rfl)
  draining := by
    intro hdraining
    cases hdraining
  first := hinv.first

/-- At the outer points all bytes are there once a sample has seen them. -/
theorem LogInv.full_iff
    (hlog : LogInv n a c log)
    (hdrained : c.point.draining = false) :
    c.received.toNat = a.count.toNat ↔
      n + a.count.toNat ≤ log.lastWritten n := by
  have hreceived := hlog.drained hdrained
  omega

/-- A sample is noted with what it saw. -/
theorem LogInv.sampled
    (hinv : LogInv n a c log)
    (hat : c.point = .sample)
    {written elapsed : Nat} {dmaPos : UInt16}
    (hahead : n + c.received.toNat ≤ written)
    (hunread : written < n + c.received.toNat + uart2RxDmaBufSize)
    (hdmaPos : dmaPos.toNat = written % uart2RxDmaBufSize) :
    LogInv n a { c with dmaPos := dmaPos, point := .innerTest }
      { log with samples := log.samples ++ [⟨written, elapsed⟩] } where
  balance := by
    rw [List.length_append, hinv.balance_at hat]
    rfl
  early := fun _ => hinv.early (by simp [hat])
  ended := by
    intro hfinish
    cases hfinish
  drained := by
    intro hdrained
    cases hdrained
  draining := by
    intro _
    rw [lastWritten_snoc]
    exact ⟨hahead, hunread, hdmaPos⟩
  first := by
    intro sample hsample
    cases hsamples : log.samples with
    | nil =>
        have hnone : log.lastWritten n = n := by
          simp [CallLog.lastWritten, hsamples]
        have hdrained := hinv.drained (by rw [hat]; rfl)
        simp only [hsamples, List.nil_append, List.head?_cons,
          Option.some.injEq] at hsample
        subst hsample
        simp only
        omega
    | cons first later =>
        apply hinv.first sample
        rw [hsamples] at hsample ⊢
        exact hsample

/-- The inner loop ends with all that was sampled, or all asked for, read. -/
theorem LogInv.emptied
    (hinv : LogInv n a c log)
    (hat : c.point = .innerTest)
    {lastPos : UInt16}
    (hpos : lastPos.toNat =
      (n + c.received.toNat) % uart2RxDmaBufSize)
    (hle : c.received.toNat ≤ a.count.toNat)
    (hstop : lastPos = c.dmaPos ∨
      a.count.toNat ≤ c.received.toNat) :
    LogInv n a { c with point := .timeout } log where
  balance := by
    rw [hinv.balance_at hat]
    rfl
  early := fun _ => hinv.early (by simp [hat])
  ended := by
    intro hfinish
    cases hfinish
  drained := by
    intro _
    obtain ⟨hbehind, hnear, hdmaPos⟩ :=
      hinv.draining (by rw [hat]; rfl)
    rcases hstop with hequal | hfull
    · have hall : n + c.received.toNat = log.lastWritten n := by
        by_contra hne
        apply mod_ne_mod_of_lt (Nat.lt_of_le_of_ne hbehind hne) hnear
        rw [← hpos, ← hdmaPos, hequal]
      simp only
      omega
    · simp only
      omega
  draining := by
    intro hdraining
    cases hdraining
  first := hinv.first

/-- Different indices in the inner loop mean that a sampled byte is left. -/
theorem LogInv.sampledLeft
    (hinv : LogInv n a c log)
    (hdraining : c.point.draining = true)
    {lastPos : UInt16}
    (hpos : lastPos.toNat =
      (n + c.received.toNat) % uart2RxDmaBufSize)
    (hne : lastPos ≠ c.dmaPos) :
    n + c.received.toNat < log.lastWritten n := by
  obtain ⟨hbehind, _, hdmaPos⟩ := hinv.draining hdraining
  refine Nat.lt_of_le_of_ne hbehind ?_
  intro hequal
  apply hne
  refine UInt16.toNat_inj.mp ?_
  rw [hpos, hdmaPos, hequal]

/-- A byte is read that the sample has seen. -/
theorem LogInv.copied
    (hinv : LogInv n a c log)
    (hat : c.point = .copy)
    {lastPos : UInt16}
    (hpos : lastPos.toNat =
      (n + c.received.toNat) % uart2RxDmaBufSize)
    (hne : lastPos ≠ c.dmaPos)
    (hreceived : c'.received.toNat = c.received.toNat + 1)
    (hdma : c'.dmaPos = c.dmaPos)
    (hto : c'.point = .advance) :
    LogInv n a c' log where
  balance := by
    rw [hinv.balance_at hat, hto]
    rfl
  early := fun _ => hinv.early (by simp [hat])
  ended := by
    intro hfinish
    rw [hto] at hfinish
    cases hfinish
  drained := by
    intro hdrained
    rw [hto] at hdrained
    cases hdrained
  draining := by
    intro _
    have hdraining : c.point.draining = true := by
      rw [hat]
      rfl
    obtain ⟨_, hnear, hdmaPos⟩ := hinv.draining hdraining
    have hleft := hinv.sampledLeft hdraining hpos hne
    rw [hreceived, hdma]
    exact ⟨by omega, by omega, hdmaPos⟩
  first := hinv.first

/-- A check at or after the deadline ends the call. -/
theorem LogInv.expired
    (hinv : LogInv n a c log)
    (hat : c.point = .timeout)
    {elapsed : Nat} (hlate : a.limit ≤ elapsed) :
    LogInv n a { c with point := .finish }
      { log with checks := log.checks ++ [elapsed] } where
  balance := by
    rw [List.length_append, hinv.balance_at hat]
    rfl
  early := fun hnot => absurd rfl hnot
  ended := by
    intro _
    exact Or.inr
      ⟨log.checks, elapsed, rfl, hinv.early (by simp [hat]), hlate⟩
  drained := by
    intro _
    exact hinv.drained (by rw [hat]; rfl)
  draining := by
    intro hdraining
    cases hdraining
  first := hinv.first

/-- A check before the deadline goes round again. -/
theorem LogInv.waiting
    (hinv : LogInv n a c log)
    (hat : c.point = .timeout)
    {elapsed : Nat} (hsoon : elapsed < a.limit) :
    LogInv n a { c with point := .outerTest }
      { log with checks := log.checks ++ [elapsed] } where
  balance := by
    rw [List.length_append, hinv.balance_at hat]
    rfl
  early := fun _ => early_snoc (hinv.early (by simp [hat])) hsoon
  ended := by
    intro hfinish
    cases hfinish
  drained := by
    intro _
    exact hinv.drained (by rw [hat]; rfl)
  draining := by
    intro hdraining
    cases hdraining
  first := hinv.first

end LogMoves

section CallStep

variable {stream : ByteMem} {n : Nat} {a : ReadArgs}
variable {s : WatchedPort} {c c' : ReadCall}

/-- What the call returns when it is at its end. -/
def ReadCall.reply (c : ReadCall) : ReadReturn where
  count := c.count
  received := c.received
  bytes := window c.buf 0 c.received.toNat

/-- A step of a call goes on with the call or ends it. -/
inductive CallStep (stream : ByteMem) (n : Nat) (a : ReadArgs)
    (s : WatchedPort) (c : ReadCall) :
    Option ReadReturn × WatchedPort → Prop
  | going {s' : WatchedPort} {c' : ReadCall}
      (hinv : CallInv stream n a s' c') :
      CallStep stream n a s c (none, s')
  | returned
      (hat : c.point = .finish) :
      CallStep stream n a s c
        (some c.reply,
          { port := { s.port with call := none }
            log := s.log })

/-- What was read next extends what the call has stored. -/
theorem CallInv.readOn
    (hinv : CallInv stream n a s c)
    {p' : SerialPort}
    (hcall : p'.call = some c')
    (hread : ReadsNext stream s.port (n + c.received.toNat)
      (none, p')) :
    ReaderInv stream p' (n + c'.received.toNat) ∧
      window c'.buf 0 c'.received.toNat =
        window stream n c'.received.toNat := by
  have hbefore : s.port.stored = window stream n c.received.toNat := by
    simp only [SerialPort.stored, hinv.call, hinv.content]
  have hafter : p'.stored = window c'.buf 0 c'.received.toNat := by
    simp only [SerialPort.stored, hcall]
  cases hread with
  | nothing hbytes hreader =>
      rw [returnedBytes, List.nil_append, hbefore, hafter] at hbytes
      have hsame : c'.received.toNat = c.received.toNat := by
        simpa using congrArg List.length hbytes
      rw [hsame] at hbytes ⊢
      exact ⟨hreader, hbytes⟩
  | byte hbytes hreader =>
      rw [hbefore, hafter] at hbytes
      have hnext : c'.received.toNat = c.received.toNat + 1 := by
        simpa using congrArg List.length hbytes
      rw [hnext] at hbytes ⊢
      exact ⟨hreader, by rw [hbytes, window_add]; rfl⟩

/-- A move keeps the invariant if it keeps the frame and the log tells it. -/
theorem CallInv.moved
    (hinv : CallInv stream n a s c)
    {p' : SerialPort} {log' : CallLog}
    (hread : ReadsNext stream s.port (n + c.received.toNat)
      (none, p'))
    (hcall : p'.call = some c')
    (hcount : c'.count = c.count)
    (hlimit : c'.byteTimeoutMs = c.byteTimeoutMs)
    (hstart : c'.start = c.start)
    (hframe : ∀ k, c'.received.toNat ≤ k → c'.buf k = a.buf k)
    (hlogged : LogInv n a c' log') :
    CallInv stream n a { port := p', log := log' } c' where
  call := hcall
  count := hcount.trans hinv.count
  byteTimeoutMs := hlimit.trans hinv.byteTimeoutMs
  start := hstart.trans hinv.start
  reader := (hinv.readOn hcall hread).1
  content := (hinv.readOn hcall hread).2
  frame := hframe
  logged := hlogged

/-- A move that stores nothing goes on with the call if the log tells it. -/
theorem CallInv.repositioned
    (hinv : CallInv stream n a s c)
    {p' : SerialPort} {log' : CallLog}
    {dmaPos : UInt16} {point : ReadPoint}
    (hread : ReadsNext stream s.port (n + c.received.toNat)
      (none, p'))
    (hcall : p'.call = some { c with dmaPos := dmaPos, point := point })
    (hlogged : LogInv n a { c with dmaPos := dmaPos, point := point }
      log') :
    CallStep stream n a s c (none, { port := p', log := log' }) := by
  apply CallStep.going
  exact hinv.moved hread hcall rfl rfl rfl hinv.frame hlogged

/-- One step of a watched call, taken before 2 ^ 32 ticks have passed. -/
theorem callInv_step
    (hinv : CallInv stream n a s c)
    (hlimit : 0 ≤ a.byteTimeoutMs)
    (hunread : s.port.written <
      n + c.received.toNat + uart2RxDmaBufSize)
    {elapsed : Nat} (hlt : elapsed < 4294967296) :
    CallStep stream n a s c
      (watchStep stream a.start s (.step elapsed)) := by
  have hmove := readSerialStep_move s.port c
    (a.start + UInt32.ofNat elapsed)
  have hread := readsNext_of_move hinv.reader hinv.call hunread hmove
  obtain ⟨hle, hpoint⟩ := hinv.reader.busy c hinv.call
  have hlog := hinv.logged
  have hexpire := limit_reached_iff hlimit hlt
  simp only [watchStep, CallEvent.serialEvent, serialStep, hinv.call,
    CallLog.note, Option.map_some]
  rw [hinv.count] at hle
  generalize readSerialStep s.port c (a.start + UInt32.ofNat elapsed) =
    out at hmove hread ⊢
  cases hmove with
  | enter hat hmore =>
      simp only [hat]
      exact hinv.repositioned hread rfl
        (hlog.moved hat rfl rfl (by simp) (by simp))
  | leave hat hdone =>
      simp only [hat]
      rw [hinv.count] at hdone
      exact hinv.repositioned hread rfl
        (hlog.left hat (Nat.le_antisymm hle hdone))
  | sampled hat dmaPos hdma =>
      simp only [hat]
      exact hinv.repositioned hread rfl
        (hlog.sampled hat hinv.reader.ahead hunread hdma)
  | unread hat hne hmore =>
      simp only [hat]
      exact hinv.repositioned hread rfl
        (hlog.moved hat rfl rfl (by simp) (by simp))
  | drained hat hstop =>
      simp only [PointInv, hat] at hpoint
      simp only [hat]
      rw [hinv.count] at hstop
      exact hinv.repositioned hread rfl
        (hlog.emptied hat hpoint.1 hle hstop)
  | copied hat =>
      simp only [PointInv, hat] at hpoint
      obtain ⟨hpos, _, hne, hmore⟩ := hpoint
      have hnext := toNat_received_succ hmore
      simp only [hat]
      refine CallStep.going (hinv.moved hread rfl rfl rfl rfl ?_
        (hlog.copied hat hpos hne hnext rfl rfl))
      intro k hk
      simp only [hnext] at hk ⊢
      rw [Function.update_of_ne (by omega)]
      exact hinv.frame k (by omega)
  | advanced hat | wrapped hat hend | inside hat hlt' =>
      simp only [hat]
      exact hinv.repositioned hread rfl
        (hlog.moved hat rfl rfl (by simp) (by simp))
  | expired hat _ helapsed =>
      simp only [hat]
      rw [hinv.byteTimeoutMs, hinv.start] at helapsed
      exact hinv.repositioned hread rfl
        (hlog.expired hat (hexpire.mp helapsed))
  | waiting hat hwait =>
      simp only [hat]
      rw [hinv.byteTimeoutMs, hinv.start] at hwait
      have hsoon : elapsed < a.limit := by
        rw [← Nat.not_le, ← hexpire]
        exact UInt32.not_le.mpr (hwait hlimit)
      exact hinv.repositioned hread rfl
        (hlog.waiting hat hsoon)
  | returned hat =>
      simp only [hat]
      exact CallStep.returned hat

end CallStep

section CallRun

variable {stream : ByteMem} {n : Nat} {a : ReadArgs}
variable {s : WatchedPort} {during : List CallEvent}

/-- A step is taken before 2 ^ 32 ticks have passed. -/
def CallEvent.Ticking : CallEvent → Prop
  | .dmaByte _ => True
  | .step elapsed => elapsed < 4294967296

/-- While the call is in progress fewer bytes are unread than the ring has. -/
def UnreadInCall (n : Nat) (s : WatchedPort) : Prop :=
  ∀ c, s.port.call = some c →
    s.port.written < n + c.received.toNat + uart2RxDmaBufSize

/-- What a watched run from the beginning of a call has come to. -/
inductive CallOutcome (stream : ByteMem) (n : Nat) (a : ReadArgs)
    (s : WatchedPort) (during : List CallEvent) : Prop
  | running (c : ReadCall)
      (hinv : CallInv stream n a
        (runState (watchStep stream a.start) s during) c)
      (hsilent : ∀ reply ∈
        runReplies (watchStep stream a.start) s during, reply = none)
  | returned (pre : List CallEvent) (c : ReadCall)
      (hpre : pre <+: during)
      (hinv : CallInv stream n a
        (runState (watchStep stream a.start) s pre) c)
      (hat : c.point = .finish)
      (hidle :
        (runState (watchStep stream a.start) s during).port.call = none)
      (hlog : (runState (watchStep stream a.start) s during).log =
        (runState (watchStep stream a.start) s pre).log)
      (hreply : some c.reply ∈
        runReplies (watchStep stream a.start) s during)
      (honly : ∀ r, some r ∈
        runReplies (watchStep stream a.start) s during → r = c.reply)

/-- Without a call nothing is answered or noted. -/
theorem watchStep_idle
    (hidle : s.port.call = none) (e : CallEvent) :
    (watchStep stream a.start s e).1 = none ∧
      (watchStep stream a.start s e).2.port.call = none ∧
      (watchStep stream a.start s e).2.log = s.log := by
  cases e with
  | dmaByte elapsed =>
      exact ⟨rfl, hidle, rfl⟩
  | step elapsed =>
      simp [watchStep, CallEvent.serialEvent, serialStep, CallLog.note,
        hidle]

/-- One event of a call in progress. -/
theorem callStep_of_event
    {c : ReadCall}
    (hinv : CallInv stream n a s c)
    (hlimit : 0 ≤ a.byteTimeoutMs)
    {e : CallEvent}
    (hticking : e.Ticking)
    (hunread : UnreadInCall n s) :
    CallStep stream n a s c (watchStep stream a.start s e) := by
  cases e with
  | dmaByte elapsed =>
      exact CallStep.going (callInv_dmaByte hinv elapsed)
  | step elapsed =>
      exact callInv_step hinv hlimit (hunread c hinv.call) hticking

/-- What one more event makes of a watched run. -/
theorem callOutcome_snoc
    {pre : List CallEvent} {e : CallEvent}
    (houtcome : CallOutcome stream n a s pre)
    (hlimit : 0 ≤ a.byteTimeoutMs)
    (hticking : e.Ticking)
    (hunread : UnreadInCall n
      (runState (watchStep stream a.start) s pre)) :
    CallOutcome stream n a s (pre ++ [e]) := by
  have hstate :
      runState (watchStep stream a.start) s (pre ++ [e]) =
        (watchStep stream a.start
          (runState (watchStep stream a.start) s pre) e).2 :=
    runState_append _ _ _ _
  have hreplies : ∀ reply,
      reply ∈ runReplies (watchStep stream a.start) s (pre ++ [e]) ↔
        reply ∈ runReplies (watchStep stream a.start) s pre ∨
          reply = (watchStep stream a.start
            (runState (watchStep stream a.start) s pre) e).1 := by
    intro reply
    rw [runReplies_append, List.mem_append, runReplies_cons,
      runReplies_nil, List.mem_singleton]
  cases houtcome with
  | running c hinv hsilent =>
      have hnext := callStep_of_event hinv hlimit hticking hunread
      generalize watchStep stream a.start
        (runState (watchStep stream a.start) s pre) e = out
        at hnext hstate hreplies
      cases hnext with
      | going hinv' =>
          refine CallOutcome.running _ (by rw [hstate]; exact hinv') ?_
          intro reply hmem
          rcases (hreplies reply).mp hmem with hold | hnew
          · exact hsilent reply hold
          · exact hnew
      | returned hat =>
          refine CallOutcome.returned pre c ⟨[e], rfl⟩ hinv hat
            (by rw [hstate]) (by rw [hstate])
            ((hreplies _).mpr (Or.inr rfl)) ?_
          intro r hmem
          rcases (hreplies _).mp hmem with hold | hnew
          · cases hsilent _ hold
          · exact Option.some.inj hnew
  | returned q c hq hinv hat hidle hlog hreply honly =>
      obtain ⟨hnone, hstill, hsame⟩ :=
        @watchStep_idle stream a _ hidle e
      refine CallOutcome.returned q c (hq.trans ⟨[e], rfl⟩) hinv hat
        (by rw [hstate, hstill]) (by rw [hstate, hsame, hlog])
        ((hreplies _).mpr (Or.inl hreply)) ?_
      intro r hmem
      rcases (hreplies _).mp hmem with hold | hnew
      · exact honly r hold
      · rw [hnone] at hnew
        cases hnew

/-- A call that has begun is in progress, or it has returned exactly once. -/
theorem callOutcome_run
    {c₀ : ReadCall}
    (hbegun : CallInv stream n a s c₀)
    (hlimit : 0 ≤ a.byteTimeoutMs)
    (hroom : StepsMeet (watchStep stream a.start)
      (fun t e => e.Ticking ∧ UnreadInCall n t) s during) :
    CallOutcome stream n a s during := by
  induction during using List.reverseRecOn with
  | nil =>
      exact CallOutcome.running c₀ hbegun (by simp)
  | append_singleton pre e ih =>
      obtain ⟨hbefore, ⟨hticking, hunread⟩, _⟩ :=
        (stepsMeet_append _ _ _ _ _).mp hroom
      exact callOutcome_snoc (ih hbefore) hlimit hticking hunread

end CallRun

end Port
end ModbusRtu
