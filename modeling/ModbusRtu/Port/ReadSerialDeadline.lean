import ModbusRtu.Port.ReadSerialReturn

/-!
# When read_serial gives up

A call with a timeout that is not negative is followed from an idle port that
some history has led to. The ticks that its steps read do not decrease and stay
below 2 ^ 32 ticks after the start; the tick counter may wrap around.

The call stores the next bytes of the stream at the front of its buffer and
touches nothing else of it. It leaves its loop with fewer bytes than asked for
only if its last timeout check was made at or after the deadline, and it comes
back within a fixed number of steps once the deadline has passed. With a
timeout of zero the first check is the last one, so there is one sample, and
the call returns what that sample saw. This is how the library empties the
ring before it waits for a new request.
-/

namespace ModbusRtu
namespace Port

open Kernel

section Setting

/-- All events up to a moment of the call. -/
def callEvents (history : List SerialEvent) (a : ReadArgs)
    (during : List CallEvent) : List SerialEvent :=
  history ++ a.event :: during.map (CallEvent.serialEvent a.start)

/-- The port at a moment of the call. -/
def callPort (stream : ByteMem) (history : List SerialEvent)
    (a : ReadArgs) (during : List CallEvent) : SerialPort :=
  portAfter stream (callEvents history a during)

/-- The watched port at the beginning of the call. -/
def callBegun (stream : ByteMem) (history : List SerialEvent)
    (a : ReadArgs) : WatchedPort :=
  a.begun (portAfter stream history)

/-- What the port has answered since the call began. -/
def callReplies (stream : ByteMem) (history : List SerialEvent)
    (a : ReadArgs) (during : List CallEvent) :
    List (Option ReadReturn) :=
  runReplies (serialStep stream) (callBegun stream history a).port
    (during.map (CallEvent.serialEvent a.start))

/-- The samples and checks of the call so far. -/
def callLog (stream : ByteMem) (history : List SerialEvent)
    (a : ReadArgs) (during : List CallEvent) : CallLog :=
  (runState (watchStep stream a.start) (callBegun stream history a)
    during).log

/-- Bytes read by the calls before this one. -/
def readBefore (stream : ByteMem) (history : List SerialEvent) : Nat :=
  (returnedAfter stream history).length

/-- A call on an idle port, its ticks and the bytes that arrive. -/
structure CallSetting (stream : ByteMem) (history : List SerialEvent)
    (a : ReadArgs) (during : List CallEvent) : Prop where
  idle : (portAfter stream history).call = none
  limit : 0 ≤ a.byteTimeoutMs
  ordered : (tickReadings during).Pairwise (· ≤ ·)
  ticking : ∀ elapsed ∈ tickReadings during, elapsed < 4294967296
  fits : UnreadFits stream (callEvents history a during)

variable {stream : ByteMem} {history : List SerialEvent}
variable {a : ReadArgs} {during : List CallEvent}

/-- The watched run is the run of the port. -/
theorem callPort_eq_watched
    (hidle : (portAfter stream history).call = none)
    (during : List CallEvent) :
    callPort stream history a during =
        (runState (watchStep stream a.start)
          (callBegun stream history a) during).port ∧
      callReplies stream history a during =
        runReplies (watchStep stream a.start)
          (callBegun stream history a) during := by
  obtain ⟨hreplies, hport⟩ :=
    watched_run stream a.start (callBegun stream history a) during
  refine ⟨?_, hreplies.symm⟩
  rw [hport, callPort, callEvents, portAfter, runState_append,
    runState_cons, ← portAfter, serialStep_event stream a hidle]
  rfl

/-- While the call is in progress, what it stored has been read since. -/
theorem length_readAfter_callEvents
    (hidle : (portAfter stream history).call = none)
    (hsilent : ∀ reply ∈ callReplies stream history a during,
      reply = none)
    {c : ReadCall}
    (hcall : (callPort stream history a during).call = some c) :
    (readAfter stream (callEvents history a during)).length =
      readBefore stream history + c.received.toNat := by
  have hreplies :
      returnedAfter stream (callEvents history a during) =
        returnedAfter stream history ++
          (callReplies stream history a during).flatMap returnedBytes := by
    rw [returnedAfter, callEvents, runReplies_append, runReplies_cons,
      List.flatMap_append, List.flatMap_cons, ← portAfter,
      serialStep_event stream a hidle]
    rfl
  have hnothing :
      (callReplies stream history a during).flatMap returnedBytes = [] := by
    rw [List.flatMap_eq_nil_iff]
    intro reply hmem
    rw [hsilent reply hmem]
    rfl
  rw [callPort] at hcall
  simp only [readAfter, hreplies, hnothing, List.append_nil,
    SerialPort.stored, hcall, List.length_append, length_window,
    readBefore]

/-- What the reader's invariant says when the call begins. -/
theorem readerInv_readBefore
    (hidle : (portAfter stream history).call = none)
    (hfits : UnreadFits stream history) :
    ReaderInv stream (portAfter stream history)
      (readBefore stream history) := by
  have hinv := (readerInv_run hfits).2
  rw [readAfter_of_idle hidle] at hinv
  exact hinv

theorem tickReadings_append (pre post : List CallEvent) :
    tickReadings (pre ++ post) = tickReadings pre ++ tickReadings post := by
  exact List.filterMap_append

/-- The setting holds at every earlier moment of the call. -/
theorem CallSetting.earlier
    {pre post : List CallEvent}
    (hset : CallSetting stream history a (pre ++ post)) :
    CallSetting stream history a pre where
  idle := hset.idle
  limit := hset.limit
  ordered := by
    have hordered := hset.ordered
    rw [tickReadings_append, List.pairwise_append] at hordered
    exact hordered.1
  ticking := by
    intro elapsed hmem
    apply hset.ticking
    rw [tickReadings_append]
    exact List.mem_append_left _ hmem
  fits := by
    intro q hq
    apply hset.fits q
    refine hq.trans ?_
    exact ⟨post.map (CallEvent.serialEvent a.start),
      by simp [callEvents]⟩

/-- The invariant at the beginning of the call. -/
theorem CallSetting.begun
    (hset : CallSetting stream history a during) :
    CallInv stream (readBefore stream history) a
      (callBegun stream history a)
      (readSerial a.buf a.count a.byteTimeoutMs a.start) := by
  apply callInv_begun _ hset.idle
  apply readerInv_readBefore hset.idle
  intro q hq
  exact hset.fits q (hq.trans ⟨_, rfl⟩)

theorem ticking_of_mem
    {e : CallEvent}
    (hticking : ∀ elapsed ∈ tickReadings during, elapsed < 4294967296)
    (hmem : e ∈ during) :
    e.Ticking := by
  cases e with
  | dmaByte elapsed =>
      trivial
  | step elapsed =>
      exact hticking elapsed
        (List.mem_filterMap.mpr ⟨.step elapsed, hmem, rfl⟩)

/-- The unread bytes fit at every step of the call. -/
theorem CallSetting.room
    (hset : CallSetting stream history a during) :
    StepsMeet (watchStep stream a.start)
      (fun t e =>
        e.Ticking ∧ UnreadInCall (readBefore stream history) t)
      (callBegun stream history a) during := by
  induction during using List.reverseRecOn with
  | nil =>
      trivial
  | append_singleton pre e ih =>
      have hbefore := ih hset.earlier
      rw [stepsMeet_append]
      refine ⟨hbefore, ⟨?_, ?_⟩, trivial⟩
      · exact ticking_of_mem hset.ticking (by simp)
      · intro c hcall
        obtain ⟨hport, hreplies⟩ := callPort_eq_watched (a := a)
          hset.idle pre
        rw [← hport] at hcall ⊢
        have houtcome :=
          callOutcome_run hset.begun hset.limit hbefore
        cases houtcome with
        | running c' hinv hsilent =>
            rw [← hreplies] at hsilent
            have hfits := hset.fits (callEvents history a pre)
              ⟨[e.serialEvent a.start], by simp [callEvents]⟩
            rw [length_readAfter_callEvents hset.idle hsilent hcall]
              at hfits
            exact hfits
        | returned q c' hq hinv hat hidle =>
            rw [← hport, hcall] at hidle
            cases hidle

/-- The call is in progress, or it has returned exactly once. -/
theorem CallSetting.outcome
    (hset : CallSetting stream history a during) :
    CallOutcome stream (readBefore stream history) a
      (callBegun stream history a) during :=
  callOutcome_run hset.begun hset.limit hset.room

end Setting

section Results

variable {stream : ByteMem} {history : List SerialEvent}
variable {a : ReadArgs} {during : List CallEvent}
variable {n : Nat} {s : WatchedPort} {c : ReadCall} {log : CallLog}

/-- sizeof(nmbs->msg.buf) -/
def sizeofMsgBuf : Nat := 260

/-- The call of read_serial that flush of nanomodbus.c makes. -/
def flush (msgBuf : ByteMem) (start : UInt32) : ReadArgs where
  buf := msgBuf
  count := UInt16.ofNat sizeofMsgBuf
  byteTimeoutMs := 0
  start := start

/--
The call has stored the next bytes of the stream, no more than asked for, and
the buffer behind them is as the caller passed it.
-/
def BufferFilled (stream : ByteMem) (n : Nat) (a : ReadArgs)
    (c : ReadCall) : Prop :=
  c.received.toNat ≤ a.count.toNat ∧
    ∀ k, c.buf k =
      if k < c.received.toNat then stream (n + k) else a.buf k

theorem CallInv.filled
    (hinv : CallInv stream n a s c) :
    BufferFilled stream n a c := by
  constructor
  · rw [← hinv.count]
    exact (hinv.reader.busy c hinv.call).1
  · intro k
    have hcontent := hinv.content
    rw [window_shift stream n, window_eq_iff] at hcontent
    split
    · rename_i hk
      exact hcontent k (Nat.zero_le k) (by omega)
    · rename_i hk
      exact hinv.frame k (Nat.not_lt.mp hk)

/-- A call that ends with bytes missing has made a late check last. -/
theorem LogInv.late
    (hlog : LogInv n a c log)
    (hat : c.point = .finish)
    (hmissing : c.received.toNat < a.count.toNat) :
    ∃ elapsed, log.checks.getLast? = some elapsed ∧
      a.limit ≤ elapsed := by
  rcases hlog.ended hat with ⟨hfull, _⟩ | ⟨early, elapsed, hchecks, _, hlate⟩
  · omega
  · exact ⟨elapsed, by simp [hchecks], hlate⟩

/-- Without any time to wait no check is early. -/
theorem eq_nil_of_early
    {checks : List Nat}
    (hzero : a.limit = 0)
    (hearly : Early a checks) :
    checks = [] := by
  apply List.eq_nil_iff_forall_not_mem.mpr
  intro elapsed hmem
  have hlt := hearly elapsed hmem
  omega

/-- Without any time to wait a call ends after a single sample. -/
theorem LogInv.oneSample
    (hlog : LogInv n a c log)
    (hat : c.point = .finish)
    (hzero : a.limit = 0)
    (hcount : 1 ≤ a.count.toNat) :
    ∃ sample, log.samples = [sample] ∧
      c.received.toNat = min a.count.toNat (sample.written - n) ∧
      sample.written < n + uart2RxDmaBufSize := by
  have hbalance := hlog.allChecked hat
  have hdrained := hlog.drained (by rw [hat]; rfl)
  rcases hlog.ended hat with ⟨hfull, hearly⟩ | ⟨early, elapsed, hchecks, hearly, _⟩
  · rw [eq_nil_of_early hzero hearly] at hbalance
    have hnone := List.length_eq_zero_iff.mp hbalance
    simp only [CallLog.lastWritten, hnone, List.getLast?_nil] at hdrained
    omega
  · rw [hchecks, eq_nil_of_early hzero hearly] at hbalance
    obtain ⟨sample, hsample⟩ := List.length_eq_one_iff.mp hbalance
    have hfirst := hlog.first sample (by rw [hsample]; rfl)
    simp only [CallLog.lastWritten, hsample, List.getLast?_singleton]
      at hdrained
    exact ⟨sample, hsample, by omega, hfirst⟩

/-- What the sample of a flush saw has been read when the flush ends. -/
theorem LogInv.flushed
    (hlog : LogInv n a c log)
    (hat : c.point = .finish)
    (hflush : a = flush a.buf a.start) :
    ∃ sample, log.samples = [sample] ∧
      sample.written ≤ n + c.received.toNat := by
  have hcount : a.count.toNat = 260 := by
    rw [hflush]
    rfl
  have hlimit : a.limit = 0 := by
    rw [hflush]
    rfl
  obtain ⟨sample, hsamples, hreceived, hnear⟩ :=
    hlog.oneSample hat hlimit (by omega)
  refine ⟨sample, hsamples, ?_⟩
  simp only [uart2RxDmaBufSize] at hnear
  omega

/-- One more event of the call. -/
theorem callPort_snoc
    (during : List CallEvent) (e : CallEvent) :
    callPort stream history a (during ++ [e]) =
      (serialStep stream (callPort stream history a during)
        (e.serialEvent a.start)).2 := by
  have hevents : callEvents history a (during ++ [e]) =
      callEvents history a during ++ [e.serialEvent a.start] := by
    simp [callEvents]
  rw [callPort, hevents]
  exact (portAfter_snoc stream _ _).1

/-- A check before the deadline goes back to the test of the outer loop. -/
theorem polls_again
    (hinv : CallInv stream n a s c)
    (hlimit : 0 ≤ a.byteTimeoutMs)
    (hat : c.point = .timeout)
    {elapsed : Nat} (hlt : elapsed < 4294967296)
    (hsoon : elapsed < a.limit) :
    (serialStep stream s.port
        (.step (a.start + UInt32.ofNat elapsed))).2.call =
      some { c with point := .outerTest } := by
  have hwait := hsoon
  rw [← Nat.not_le, ← limit_reached_iff hlimit hlt] at hwait
  simp only [serialStep, hinv.call, readSerialStep, hat,
    hinv.byteTimeoutMs, hinv.start, ge_iff_le, if_pos hlimit, if_neg hwait]
  rfl

/-- As long as bytes are missing the outer loop takes another sample. -/
theorem samples_again
    (hinv : CallInv stream n a s c)
    (hat : c.point = .outerTest)
    (hmissing : c.received.toNat < a.count.toNat)
    (tick : UInt32) :
    (serialStep stream s.port (.step tick)).2.call =
      some { c with point := .sample } := by
  rw [← hinv.count] at hmissing
  simp only [serialStep, hinv.call, readSerialStep, hat,
    UInt16.lt_iff_toNat_lt, if_pos hmissing]
  rfl

/-- Once the deadline has passed the call returns within one round. -/
theorem CallSetting.returns
    {pre post : List CallEvent} {elapsed : Nat}
    (hset : CallSetting stream history a (pre ++ .step elapsed :: post))
    (hlate : a.limit ≤ elapsed)
    (hlong : roundSteps ≤ (tickReadings post).length) :
    (callPort stream history a
      (pre ++ .step elapsed :: post)).call = none := by
  have hsplit : pre ++ .step elapsed :: post =
      (pre ++ [.step elapsed]) ++ post := by
    simp
  have hordered := hset.ordered
  rw [tickReadings_append, List.pairwise_append] at hordered
  have hafter : ∀ later ∈ tickReadings post, elapsed ≤ later :=
    (List.pairwise_cons.mp hordered.2.1).1
  rw [hsplit] at hset ⊢
  have hwatched :
      Watched stream (readBefore stream history) a
        (runState (watchStep stream a.start)
          (callBegun stream history a) (pre ++ [.step elapsed])) := by
    cases hset.earlier.outcome with
    | running c hinv hsilent =>
        exact Or.inr ⟨c, hinv⟩
    | returned q c hq hinv hat hidle =>
        exact Or.inl hidle
  rw [(callPort_eq_watched hset.idle _).1, runState_append]
  refine call_returns hwatched hset.limit ?_ hlong
  have hroom := ((stepsMeet_append _ _ _ _ _).mp hset.room).2
  rw [stepsMeet_iff_forall_split] at hroom ⊢
  rintro q e rest rfl
  obtain ⟨hticking, hunread⟩ := hroom q e rest rfl
  refine ⟨hticking, hunread, ?_⟩
  rintro later rfl c _ _
  have hmem : later ∈ tickReadings (q ++ .step later :: rest) := by
    rw [tickReadings_append]
    exact List.mem_append_right _ List.mem_cons_self
  exact Or.inl (Nat.le_trans hlate (hafter later hmem))

/-- The invariant of a call in progress. -/
theorem CallSetting.inProgress
    (hset : CallSetting stream history a during)
    (hcall : (callPort stream history a during).call = some c) :
    CallInv stream (readBefore stream history) a
      (runState (watchStep stream a.start)
        (callBegun stream history a) during) c := by
  rw [(callPort_eq_watched hset.idle during).1] at hcall
  cases hset.outcome with
  | running c' hinv hsilent =>
      have hsame := hinv.call
      rw [hcall] at hsame
      have hc := Option.some.inj hsame
      subst hc
      exact hinv
  | returned pre c' hpre hinv hat hidle =>
      rw [hcall] at hidle
      cases hidle

/-- The call that a reply belongs to, at its end, and what the log says. -/
theorem CallSetting.replied
    (hset : CallSetting stream history a during)
    {r : ReadReturn}
    (hreply : some r ∈ callReplies stream history a during) :
    ∃ pre c, pre <+: during ∧
      (callPort stream history a pre).call = some c ∧
      BufferFilled stream (readBefore stream history) a c ∧
      LogInv (readBefore stream history) a c
        (callLog stream history a during) ∧
      c.point = .finish ∧
      r = c.reply := by
  rw [(callPort_eq_watched hset.idle during).2] at hreply
  cases hset.outcome with
  | running c hinv hsilent =>
      cases hsilent _ hreply
  | returned pre c hpre hinv hat hidle hlog _ honly =>
      refine ⟨pre, c, hpre, ?_, hinv.filled, ?_, hat, honly r hreply⟩
      · rw [(callPort_eq_watched hset.idle pre).1]
        exact hinv.call
      · rw [callLog, hlog]
        exact hinv.logged

/-- A call that is no longer in progress has been answered. -/
theorem CallSetting.exists_reply
    (hset : CallSetting stream history a during)
    (hidle : (callPort stream history a during).call = none) :
    ∃ r, some r ∈ callReplies stream history a during := by
  obtain ⟨hport, hreplies⟩ := callPort_eq_watched (a := a)
    hset.idle during
  rw [hreplies]
  cases hset.outcome with
  | running c hinv hsilent =>
      rw [hport, hinv.call] at hidle
      cases hidle
  | returned pre c hpre hinv hat _ hlog hreply =>
      exact ⟨c.reply, hreply⟩

/--
read_serial gives up only after its deadline, and drains in one shot without
time to wait. At every moment of the call the buffer is filled as it should
be, no loop is left early, and the call goes on polling before the deadline.
What it returns is what the buffer was filled with; if that is less than asked
for, the last check was late; with a timeout of zero there was one sample, and
the call returned what it saw, so that a flush leaves nothing the sample saw.
Once the deadline has passed the call returns within one round.
-/
theorem read_serial_deadline
    (hset : CallSetting stream history a during) :
    (∀ c, (callPort stream history a during).call = some c →
      BufferFilled stream (readBefore stream history) a c ∧
      (c.point = .finish → c.received.toNat < a.count.toNat →
        ∃ elapsed,
          (callLog stream history a during).checks.getLast? =
            some elapsed ∧
          a.limit ≤ elapsed) ∧
      ∀ elapsed, elapsed < 4294967296 →
        (c.point = .timeout → elapsed < a.limit →
          (callPort stream history a
            (during ++ [.step elapsed])).call =
              some { c with point := .outerTest }) ∧
        (c.point = .outerTest → c.received.toNat < a.count.toNat →
          (callPort stream history a
            (during ++ [.step elapsed])).call =
              some { c with point := .sample })) ∧
    (∀ r, some r ∈ callReplies stream history a during →
      (∃ pre c, pre <+: during ∧
        (callPort stream history a pre).call = some c ∧
        BufferFilled stream (readBefore stream history) a c ∧
        r = c.reply) ∧
      (r.received.toNat < a.count.toNat →
        ∃ elapsed,
          (callLog stream history a during).checks.getLast? =
            some elapsed ∧
          a.limit ≤ elapsed) ∧
      (a.byteTimeoutMs = 0 → 1 ≤ a.count.toNat →
        ∃ sample,
          (callLog stream history a during).samples = [sample] ∧
          r.received.toNat = min a.count.toNat
            (sample.written - readBefore stream history)) ∧
      (a = flush a.buf a.start →
        ∃ sample,
          (callLog stream history a during).samples = [sample] ∧
          sample.written ≤
            readBefore stream history + r.received.toNat)) ∧
    (∀ pre elapsed post, during = pre ++ .step elapsed :: post →
      a.limit ≤ elapsed →
      roundSteps ≤ (tickReadings post).length →
      (callPort stream history a during).call = none ∧
        ∃ r, some r ∈ callReplies stream history a during) := by
  refine ⟨?_, ?_, ?_⟩
  · intro c hcall
    have hinv := hset.inProgress hcall
    refine ⟨hinv.filled, hinv.logged.late, ?_⟩
    intro elapsed hlt
    rw [callPort_snoc, (callPort_eq_watched hset.idle during).1]
    constructor
    · intro hat hsoon
      exact polls_again hinv hset.limit hat hlt hsoon
    · intro hat hmissing
      exact samples_again hinv hat hmissing _
  · intro r hreply
    obtain ⟨pre, c, hpre, hcall, hfilled, hlogged, hat, rfl⟩ :=
      hset.replied hreply
    refine ⟨⟨pre, c, hpre, hcall, hfilled, rfl⟩, hlogged.late hat,
      ?_, ?_⟩
    · intro hzero hcount
      have hlimit : a.limit = 0 := by
        rw [ReadArgs.limit, hzero]
        rfl
      obtain ⟨sample, hsamples, hreceived, _⟩ :=
        hlogged.oneSample hat hlimit hcount
      exact ⟨sample, hsamples, hreceived⟩
    · exact hlogged.flushed hat
  · rintro pre elapsed post rfl hlate hlong
    have hidle := hset.returns hlate hlong
    exact ⟨hidle, hset.exists_reply hidle⟩

/-- A flush that begins one tick before the tick counter wraps around. -/
def wrappingFlush : ReadArgs :=
  flush (fun _ => 0) 4294967295

/-- Thirteen steps of it, one at each tick. -/
def flushSteps : List CallEvent :=
  (List.range 13).map CallEvent.step

/-- With two letters in the ring the flush reads all that its sample saw. -/
theorem read_serial_deadline_flush :
    ∃ sample,
      (callLog letters [.dmaByte, .dmaByte] wrappingFlush
        flushSteps).samples = [sample] ∧
      sample.written ≤
        readBefore letters [.dmaByte, .dmaByte] + 2 := by
  have hset :
      CallSetting letters [.dmaByte, .dmaByte] wrappingFlush flushSteps :=
    { idle := rfl
      limit := by decide
      ordered := by decide
      ticking := by decide
      fits := unreadFits_of_arrivals letters (by decide) }
  have hreply :
      some { count := 260, received := 2, bytes := [65, 66] } ∈
        callReplies letters [.dmaByte, .dmaByte] wrappingFlush
          flushSteps := by
    decide
  obtain ⟨_, hreturns, _⟩ := read_serial_deadline hset
  obtain ⟨_, _, _, hflush⟩ := hreturns _ hreply
  exact hflush rfl

end Results

end Port
end ModbusRtu
