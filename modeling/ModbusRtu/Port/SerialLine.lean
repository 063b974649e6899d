import Mathlib.Data.List.ReduceOption
import ModbusRtu.Port.BurstRead
import ModbusRtu.Port.ByteGap
import ModbusRtu.Port.DeviceService

/-!
# The server on the serial port

The platform functions of port.c under the server of nanomodbus.c. A read is a
call of read_serial on the DMA ring, from its entry to its return; bytes arrive
before it and between its steps, in any interleaving. A write is a call of
HAL_UART_Transmit, whatever status it returns.

The bytes arrive faster than the server reads them or slower; the one thing
assumed of them is that at every moment fewer bytes are unread than the ring
has, and the one thing assumed of the clock is that its ticks come in order and
that no call lasts 2 ^ 32 of them.

What the server has heard then is the beginning of the stream on the UART, byte
for byte. So the frames that it serves are segments of that stream, in its order
and without overlap, and no byte of it is lost in the ring or heard twice.
-/

namespace ModbusRtu
namespace Port

open Kernel

section Once

variable {stream : ByteMem} {start : UInt32}

/-- Without a call no event is answered. -/
theorem replies_of_idle
    {s : WatchedPort} (hidle : s.port.call = none)
    (during : List CallEvent) :
    (runReplies (watchStep stream start) s during).reduceOption = [] ∧
      (runState (watchStep stream start) s during).port.call = none := by
  induction during generalizing s with
  | nil =>
      exact ⟨rfl, hidle⟩
  | cons e during ih =>
      obtain ⟨hnone, hstill, -⟩ :=
        @watchStep_idle stream ⟨fun _ => 0, 0, 0, start⟩ _ hidle e
      obtain ⟨hreplies, hend⟩ := ih hstill
      rw [runReplies_cons, runState_cons]
      refine ⟨?_, hend⟩
      rw [hnone, List.reduceOption_cons_of_none]
      exact hreplies

/-- An event of a call leaves it in progress or ends it with its one reply. -/
theorem watchStep_call
    {s : WatchedPort} {c : ReadCall} (hcall : s.port.call = some c)
    (e : CallEvent) :
    (∃ c', (watchStep stream start s e).1 = none ∧
      (watchStep stream start s e).2.port.call = some c') ∨
    ∃ r, (watchStep stream start s e).1 = some r ∧
      (watchStep stream start s e).2.port.call = none := by
  cases e with
  | dmaByte elapsed =>
      exact Or.inl ⟨c, rfl, hcall⟩
  | step elapsed =>
      have hmove := readSerialStep_move s.port c
        (start + UInt32.ofNat elapsed)
      simp only [watchStep, CallEvent.serialEvent, serialStep, hcall]
      generalize readSerialStep s.port c (start + UInt32.ofNat elapsed) =
        out at hmove ⊢
      cases hmove with
      | enter | leave | sampled | unread | drained | copied | advanced
      | wrapped | inside | expired | waiting =>
          exact Or.inl ⟨_, rfl, rfl⟩
      | returned =>
          exact Or.inr ⟨_, rfl, rfl⟩

/-- A call in progress is not answered, and a call that has ended once. -/
theorem replies_of_call
    {s : WatchedPort} {c : ReadCall} (hcall : s.port.call = some c)
    (during : List CallEvent) :
    (∃ c', (runReplies (watchStep stream start) s during).reduceOption =
        [] ∧
      (runState (watchStep stream start) s during).port.call =
        some c') ∨
    ∃ r, (runReplies (watchStep stream start) s during).reduceOption =
        [r] ∧
      (runState (watchStep stream start) s during).port.call = none := by
  induction during generalizing s c with
  | nil =>
      exact Or.inl ⟨c, rfl, hcall⟩
  | cons e during ih =>
      rw [runReplies_cons, runState_cons]
      rcases @watchStep_call stream start s c hcall e with
        ⟨c', hnone, hgoing⟩ | ⟨r, hsome, hidle⟩
      · rw [hnone, List.reduceOption_cons_of_none]
        exact ih hgoing
      · obtain ⟨hsilent, hend⟩ :=
          @replies_of_idle stream start _ hidle during
        rw [hsome, List.reduceOption_cons_of_some, hsilent]
        exact Or.inr ⟨r, rfl, hend⟩

theorem flatMap_returnedBytes (replies : List (Option ReadReturn)) :
    replies.flatMap returnedBytes =
      replies.reduceOption.flatMap ReadReturn.bytes := by
  induction replies with
  | nil =>
      rfl
  | cons reply replies ih =>
      rw [List.flatMap_cons, ih]
      cases reply with
      | none =>
          rfl
      | some r =>
          rfl

variable {history : List SerialEvent} {a : ReadArgs}
variable {during : List CallEvent} {r : ReadReturn}

/-- A call that has been answered has added its bytes to those returned. -/
theorem returnedAfter_callEvents
    (hidle : (portAfter stream history).call = none)
    (hreply : some r ∈ callReplies stream history a during) :
    returnedAfter stream (callEvents history a during) =
        returnedAfter stream history ++ r.bytes ∧
      (portAfter stream (callEvents history a during)).call = none := by
  have hreturned :
      returnedAfter stream (callEvents history a during) =
        returnedAfter stream history ++
          (callReplies stream history a during).flatMap returnedBytes := by
    rw [returnedAfter, callEvents, runReplies_append, runReplies_cons,
      List.flatMap_append, List.flatMap_cons, ← portAfter,
      serialStep_event stream a hidle]
    rfl
  obtain ⟨hport, hreplies⟩ := callPort_eq_watched (a := a) hidle during
  rw [hreturned, flatMap_returnedBytes]
  rw [callPort] at hport
  rw [hport, hreplies]
  rw [hreplies, ← List.reduceOption_mem_iff] at hreply
  have hcall : (callBegun stream history a).port.call =
      some (readSerial a.buf a.count a.byteTimeoutMs a.start) := rfl
  rcases @replies_of_call stream a.start _ _ hcall during with
    ⟨c, hsilent, -⟩ | ⟨r', honce, hend⟩
  · rw [hsilent] at hreply
    cases hreply
  · rw [honce, List.mem_singleton] at hreply
    subst hreply
    rw [honce]
    exact ⟨by simp, hend⟩

end Once

section Lines

/-- What has happened at the port since reset, and the frames written. -/
structure SerialLine where
  events : List SerialEvent
  sent : List (List UInt8)

/-- The line after reset. -/
def SerialLine.initial : SerialLine where
  events := []
  sent := []

/-- HAL_StatusTypeDef -/
inductive HalStatus
  | halOk
  | halError
  | halBusy
  | halTimeout
deriving DecidableEq

/-- write_serial, where HAL_UART_Transmit returns a status. -/
def writeSerial (count : UInt16) (status : HalStatus) : Int :=
  if status = .halOk then (count.toNat : Int) else 0

/-- The events up to a call, before which so many more bytes arrive. -/
def SerialLine.waiting (l : SerialLine) (quiet : Nat) :
    List SerialEvent :=
  l.events ++ List.replicate quiet .dmaByte

/-- One call of read_serial, from its entry to its return. -/
structure ReadRun (stream : ByteMem) (l : SerialLine) (count : Nat)
    (t : Int32) (quiet : Nat) (args : ReadArgs) (during : List CallEvent)
    (r : ReadReturn) : Prop where
  count_eq : args.count.toNat = count
  timeout_eq : args.byteTimeoutMs = t
  setting : CallSetting stream (l.waiting quiet) args during
  reply : some r ∈ callReplies stream (l.waiting quiet) args during

/-- The line behind a call. -/
def SerialLine.behind (l : SerialLine) (quiet : Nat) (args : ReadArgs)
    (during : List CallEvent) : SerialLine :=
  { l with events := callEvents (l.waiting quiet) args during }

/-- The platform functions of port.c, while the UART receives a stream. -/
def serialLine (stream : ByteMem) :
    Environment LineCall LineAnswer SerialLine
  | l, .read count t, a, l' => ∃ quiet args during r,
      ReadRun stream l count t quiet args during r ∧
        a.ret = r.received.toNat ∧ a.stored = r.bytes ∧
        l' = l.behind quiet args during
  | l, .write bytes _, ret, l' => ∃ status,
      ret = writeSerial (UInt16.ofNat bytes.length) status ∧
        l' = { l with sent := l.sent ++ [bytes] }

/-- Between two calls the port has carried what the line has heard. -/
structure Carries (stream : ByteMem) (l : SerialLine) (line : Line) :
    Prop where
  idle : (portAfter stream l.events).call = none
  fits : UnreadFits stream l.events
  heard : line.heard = returnedAfter stream l.events
  sent : line.sent = l.sent

end Lines

section Carried

variable {stream : ByteMem} {l l' : SerialLine} {line : Line}

theorem carries_initial (stream : ByteMem) :
    Carries stream SerialLine.initial ⟨[], []⟩ where
  idle := rfl
  fits := unreadFits_of_arrivals stream (Nat.zero_lt_succ 255)
  heard := rfl
  sent := rfl

/-- Bytes that arrive between two calls are not returned by either. -/
theorem returnedAfter_waiting (stream : ByteMem) (l : SerialLine)
    (quiet : Nat) :
    returnedAfter stream (l.waiting quiet) = returnedAfter stream l.events := by
  have hsilent : (runReplies (serialStep stream)
      (portAfter stream l.events)
      (List.replicate quiet .dmaByte)).flatMap returnedBytes = [] := by
    rw [List.flatMap_eq_nil_iff]
    intro reply hmem
    rw [burst_silent hmem]
    rfl
  rw [returnedAfter, SerialLine.waiting, runReplies_append,
    List.flatMap_append, ← portAfter, hsilent, List.append_nil]
  rfl

/-- They leave the port idle. -/
theorem Carries.waiting
    (h : Carries stream l line) (quiet : Nat) :
    (portAfter stream (l.waiting quiet)).call = none ∧
      (portAfter stream (l.waiting quiet)).written =
        (portAfter stream l.events).written + quiet := by
  obtain ⟨-, hstill, -, hwritten⟩ := @burstPort_spec stream _ _ quiet
    (readerInv_readBefore h.idle h.fits) h.idle
  rw [SerialLine.waiting, portAfter, runState_append, ← portAfter]
  exact ⟨hstill, hwritten⟩

/-- The bytes that have arrived and are unread are in the ring. -/
theorem Carries.room (h : Carries stream l line) :
    (portAfter stream l.events).written <
      readBefore stream l.events + uart2RxDmaBufSize := by
  have hroom := h.fits l.events (List.prefix_refl _)
  rwa [readAfter_of_idle h.idle] at hroom

/-- What has been heard is the beginning of the stream that has arrived. -/
theorem Carries.window
    (h : Carries stream l line) :
    ∃ k, k ≤ (portAfter stream l.events).written ∧
      line.heard = window stream 0 k := by
  obtain ⟨hcontent, hinv⟩ := readerInv_run h.fits
  rw [readAfter_of_idle h.idle] at hcontent hinv
  exact ⟨_, hinv.ahead, h.heard.trans hcontent⟩

theorem Carries.read
    (h : Carries stream l line)
    {count : Nat} {t : Int32} {quiet : Nat} {args : ReadArgs}
    {during : List CallEvent} {r : ReadReturn}
    (hrun : ReadRun stream l count t quiet args during r) :
    Carries stream (l.behind quiet args during) (line.hear r.bytes) := by
  obtain ⟨hreturned, hidle⟩ :=
    returnedAfter_callEvents hrun.setting.idle hrun.reply
  refine ⟨hidle, hrun.setting.fits, ?_, h.sent⟩
  rw [returnedAfter_waiting, ← h.heard] at hreturned
  exact hreturned.symm

theorem Carries.write
    (h : Carries stream l line) (bytes : List UInt8) :
    Carries stream { l with sent := l.sent ++ [bytes] }
      (line.say bytes) := by
  refine ⟨h.idle, h.fits, h.heard, ?_⟩
  rw [Line.say, h.sent]

/-- Whatever the serial port answers, a line may answer too. -/
theorem serialLine_imitates
    (c : SerialLine) (e : Line) (q : LineCall) (a : LineAnswer q)
    (c' : SerialLine) (h : Carries stream c e)
    (hanswer : serialLine stream c q a c') :
    ∃ e', anyLine e q a e' ∧ Carries stream c' e' := by
  cases q with
  | read count t =>
      rcases hanswer with ⟨quiet, args, during, r, hrun, -, hstored, rfl⟩
      refine ⟨e.hear a.stored, rfl, ?_⟩
      rw [hstored]
      exact h.read hrun
  | write bytes t =>
      rcases hanswer with ⟨status, -, rfl⟩
      exact ⟨e.say bytes, rfl, h.write bytes⟩

end Carried

section Answered

variable {stream : ByteMem} {l : SerialLine} {line : Line}

/-- Without a byte that arrives the unread bytes keep fitting. -/
theorem unreadFits_append
    {events steps : List SerialEvent} (hfits : UnreadFits stream events)
    (hsteps : ∀ e ∈ steps, e ≠ .dmaByte) :
    UnreadFits stream (events ++ steps) := by
  induction steps using List.reverseRecOn with
  | nil =>
      rw [List.append_nil]
      exact hfits
  | append_singleton steps e ih =>
      have hbefore := ih fun e' he' => hsteps e' (by simp [he'])
      have hquiet := hsteps e (by simp)
      rw [← List.append_assoc]
      intro q hq
      rcases List.prefix_concat_iff.mp hq with rfl | hearlier
      · have hroom := hbefore _ (List.prefix_refl _)
        have hread := readAfter_snoc_cases (readsNext_step
          (readerInv_run hbefore).2 hroom e)
        rw [(portAfter_snoc stream (events ++ steps) e).1]
        rcases serialStep_ring stream (portAfter stream (events ++ steps))
          e with ⟨hbyte, _⟩ | ⟨_, _, hwritten⟩
        · exact absurd hbyte hquiet
        · rw [hwritten]
          rcases hread with ⟨hsame, _⟩ | ⟨hmore, _⟩
          · rw [hsame]
            exact hroom
          · rw [hmore, List.length_append, List.length_singleton]
            omega
      · exact hbefore q hearlier

/-- A call that takes all its steps at its deadline. -/
def lateSteps (args : ReadArgs) : List CallEvent :=
  List.replicate (roundSteps + 1) (.step args.limit)

theorem tickReadings_lateSteps (args : ReadArgs) :
    tickReadings (lateSteps args) =
      List.replicate (roundSteps + 1) args.limit := by
  rw [tickReadings, lateSteps, List.filterMap_replicate]

/-- The bytes that arrive before a call fit if they fit in the end. -/
theorem unreadFits_waiting
    (h : Carries stream l line) {quiet : Nat}
    (hroom : (portAfter stream l.events).written + quiet <
      readBefore stream l.events + uart2RxDmaBufSize) :
    UnreadFits stream (l.waiting quiet) := by
  induction quiet with
  | zero =>
      rw [SerialLine.waiting, List.replicate_zero, List.append_nil]
      exact h.fits
  | succ quiet ih =>
      have hbefore := ih (by omega)
      rw [SerialLine.waiting, List.replicate_succ', ← List.append_assoc]
      intro q hq
      rcases List.prefix_concat_iff.mp hq with rfl | hearlier
      · rcases h.waiting (quiet + 1) with ⟨hidle, hwritten⟩
        have hevents : l.waiting (quiet + 1) =
            l.events ++ List.replicate quiet .dmaByte ++ [.dmaByte] := by
          rw [SerialLine.waiting, List.replicate_succ',
            ← List.append_assoc]
        rw [← hevents, readAfter_of_idle hidle, returnedAfter_waiting,
          hwritten]
        exact hroom
      · exact hbefore q hearlier

/-- Whatever is unread, a call may return without waiting for more. -/
theorem exists_readRun
    (h : Carries stream l line) {count : Nat} (hcount : count < 65536)
    {t : Int32} (ht : 0 ≤ t) {quiet : Nat}
    (hroom : (portAfter stream l.events).written + quiet <
      readBefore stream l.events + uart2RxDmaBufSize) :
    ∃ args r, ReadRun stream l count t quiet args (lateSteps args) r := by
  have hset : CallSetting stream (l.waiting quiet)
      ⟨fun _ => 0, UInt16.ofNat count, t, 0⟩
      (lateSteps ⟨fun _ => 0, UInt16.ofNat count, t, 0⟩) := by
    refine ⟨(h.waiting quiet).1, ht, ?_, ?_, ?_⟩
    · rw [tickReadings_lateSteps]
      exact List.pairwise_replicate_of_refl
    · intro elapsed hmem
      rw [tickReadings_lateSteps] at hmem
      have hlt := t.toInt_lt
      rw [List.eq_of_mem_replicate hmem]
      change t.toInt.toNat < 4294967296
      omega
    · refine unreadFits_append (unreadFits_waiting h hroom) fun e he => ?_
      rcases List.mem_cons.mp he with rfl | hstep
      · exact fun hbyte => by cases hbyte
      · rw [lateSteps, List.map_replicate] at hstep
        rw [List.eq_of_mem_replicate hstep]
        exact fun hbyte => by cases hbyte
  have hidle : (callPort stream (l.waiting quiet)
      ⟨fun _ => 0, UInt16.ofNat count, t, 0⟩
      (lateSteps ⟨fun _ => 0, UInt16.ofNat count, t, 0⟩)).call = none := by
    rw [lateSteps, List.replicate_succ, ← List.nil_append (_ :: _)]
      at hset ⊢
    refine hset.returns (Nat.le_refl _) ?_
    rw [tickReadings, List.filterMap_replicate, List.length_replicate]
  rcases hset.exists_reply hidle with ⟨r, hreply⟩
  refine ⟨_, r, ?_, rfl, hset, hreply⟩
  rw [UInt16.toNat_ofNat']
  exact Nat.mod_eq_of_lt hcount

/-- A call stores what it returns, and that is what it was asked for at most. -/
theorem ReadRun.length_bytes
    {count : Nat} {t : Int32} {quiet : Nat} {args : ReadArgs}
    {during : List CallEvent} {r : ReadReturn}
    (h : ReadRun stream l count t quiet args during r) :
    r.bytes.length = r.received.toNat ∧ r.bytes.length ≤ count := by
  rcases h.setting.replied h.reply with ⟨pre, c, -, -, ⟨hcount, -⟩, -, -, rfl⟩
  have hlen : c.reply.bytes.length = c.received.toNat :=
    length_window _ _ _
  refine ⟨hlen, ?_⟩
  rw [h.count_eq] at hcount
  omega

/-- So many bytes have arrived when a call has returned. -/
theorem written_behind (stream : ByteMem) (l : SerialLine) (quiet : Nat)
    (args : ReadArgs) (during : List CallEvent) :
    (portAfter stream (l.behind quiet args during).events).written =
      (portAfter stream l.events).written + quiet +
        (arrivalTimes during).length := by
  have hquiet : arrivals (List.replicate quiet .dmaByte) = quiet := by
    rw [arrivals, List.countP_replicate]
    rfl
  have hcall : arrivals
      (args.event :: during.map (CallEvent.serialEvent args.start)) =
        (arrivalTimes during).length :=
    arrivals_serialEvents args.start during
  have hsplit : ∀ pre post, arrivals (pre ++ post) =
      arrivals pre + arrivals post := fun pre post => List.countP_append
  rw [portAfter, portAfter, written_runState, written_runState,
    SerialLine.behind, callEvents, hsplit, hcall, SerialLine.waiting,
    hsplit, hquiet]
  omega

theorem arrivalTimes_lateSteps (args : ReadArgs) :
    arrivalTimes (lateSteps args) = [] := by
  rw [arrivalTimes, lateSteps, List.filterMap_replicate]

end Answered

section Firmware

variable {γ : Type}

/--
The firmware on its serial port, in every interleaving: what the server has
heard is the beginning of the stream that has arrived, the frames that it serves
are segments of it in their order, and the replies and the device are those of
the device that is fed with these requests, up to a hazard in what was heard.
-/
theorem firmware_on_serial_port
    (pin : OutputPin γ) (g : γ) (stream : ByteMem) (n : Nat) :
    Leads (serialLine stream)
      (fun l => ∃ k, k ≤ (portAfter stream l.events).written ∧
        FirmwareHazard pin (startDevice pin g) ⟨[], []⟩
          ⟨window stream 0 k, l.sent⟩)
      (times (nmbsServerPoll (portConf pin nmbsId)) n)
      ((mainSetup pin g).1.server (mainSetup pin g).2) SerialLine.initial
      fun _ s' l => ∃ (xs : List Exchange) (k : Nat),
        xs.length ≤ n ∧ k ≤ (portAfter stream l.events).written ∧
          Outcome (portConf pin nmbsId) xs (startDevice pin g) ⟨[], []⟩
            s'.device ⟨window stream 0 k, l.sent⟩ ∧
          xs.filterMap Exchange.reply =
            runReplies DeviceView.serve (viewOf pin (startDevice pin g))
              (xs.filterMap Exchange.request) ∧
          viewOf pin s'.device =
            runState DeviceView.serve (viewOf pin (startDevice pin g))
              (xs.filterMap Exchange.request) := by
  rw [(mainSetup_spec pin g).2]
  have hpolls := @polls_outcome _ (portConf pin nmbsId) rfl
    (portServer (startDevice pin g)) ⟨[], []⟩ n
  refine (Ends.imitated serialLine_imitates ?_ (carries_initial stream)
    hpolls).mono ?_ fun _ => id
  · rintro l ⟨heard, sent⟩ hcarries hhazard
    rcases hcarries.window with ⟨k, hwritten, rfl⟩
    obtain rfl : sent = l.sent := hcarries.sent
    exact ⟨k, hwritten, hhazard⟩
  · rintro ⟨errs, s'⟩ l ⟨⟨heard, sent⟩, hcarries, -, -, xs, hlen, houtcome⟩
    rcases hcarries.window with ⟨k, hwritten, rfl⟩
    obtain rfl : sent = l.sent := hcarries.sent
    obtain ⟨hreplies, hview⟩ := exchanges_refine_view houtcome.took
    exact ⟨xs, k, hlen, hwritten, houtcome, hreplies, hview⟩

end Firmware

end Port
end ModbusRtu
