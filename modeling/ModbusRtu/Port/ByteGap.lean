import Mathlib.Data.List.Chain
import ModbusRtu.Port.ReadSerialDeadline

/-!
# The byte timeout as read_serial applies it

nanomodbus documents the byte timeout as the time between two consecutive
bytes. read_serial measures it from the beginning of the call: start is read
once and no byte that arrives moves it. So a frame whose bytes keep coming is
cut off if it takes as a whole as long as the gap that is allowed between two
bytes.

What counts is the polling round whose check is the first at or after the
deadline. The call returns all bytes it was asked for exactly when the last of
them is in the ring when that round takes its sample. If the call polls at
every tick, a last byte that arrives before the deadline is in time and one
that arrives after it is not.
-/

namespace ModbusRtu
namespace Port

open Kernel

section Schedule

/-- A call in its setting, whose events happen in the order of their ticks. -/
structure TimedCall (stream : ByteMem) (history : List SerialEvent)
    (a : ReadArgs) (during : List CallEvent) : Prop where
  setting : CallSetting stream history a during
  timed : (during.map CallEvent.elapsed).Pairwise (· ≤ ·)

/-- The ticks at which bytes arrive during the call. -/
def arrivalTimes (during : List CallEvent) : List Nat :=
  during.filterMap fun
    | .dmaByte elapsed => some elapsed
    | .step _ => none

/-- Bytes that are in the ring, unread, when the call begins. -/
def unreadBefore (stream : ByteMem) (history : List SerialEvent) : Nat :=
  (portAfter stream history).written - readBefore stream history

/--
When each of the bytes that the call can read is in the ring, in ticks since
the call began; zero for those that are there already.
-/
def readyTimes (stream : ByteMem) (history : List SerialEvent)
    (during : List CallEvent) : List Nat :=
  List.replicate (unreadBefore stream history) 0 ++ arrivalTimes during

/--
All bytes asked for arrive, the first of them within the byte timeout from the
beginning of the call and each other one within it from the one before.
-/
def KeepsComing (a : ReadArgs) (ready : List Nat) : Prop :=
  a.count.toNat ≤ ready.length ∧
    List.IsChain (fun before now => now < before + a.limit)
      (0 :: ready.take a.count.toNat)

/-- The samples with the checks that follow them. -/
def CallLog.rounds (log : CallLog) : List (PollSample × Nat) :=
  log.samples.zip log.checks

/-- Every round happens within a tick, and at most one tick after the last. -/
def PollsEveryTick (log : CallLog) : Prop :=
  (∀ round ∈ log.rounds, round.1.elapsed = round.2) ∧
    List.IsChain (fun before now => now ≤ before + 1) (0 :: log.checks)

/-- The call has returned all bytes it was asked for. -/
def ReturnsAll (stream : ByteMem) (history : List SerialEvent)
    (a : ReadArgs) (during : List CallEvent) : Prop :=
  ∃ r, some r ∈ callReplies stream history a during ∧
    r.received = a.count

/-- A round checked at or after the deadline finds all bytes in the ring. -/
def InTime (stream : ByteMem) (history : List SerialEvent)
    (a : ReadArgs) (during : List CallEvent) : Prop :=
  ∀ round ∈ (callLog stream history a during).rounds,
    a.limit ≤ round.2 →
      readBefore stream history + a.count.toNat ≤ round.1.written

end Schedule

section Samples

variable {stream : ByteMem} {a : ReadArgs} {s : WatchedPort}
variable {during : List CallEvent}

/-- A sample was taken at a step of the run, and saw what was written then. -/
theorem sample_of_run
    {sample : PollSample}
    (hmem : sample ∈
      (runState (watchStep stream a.start) s during).log.samples) :
    sample ∈ s.log.samples ∨
      ∃ pre post, during = pre ++ .step sample.elapsed :: post ∧
        sample.written =
          (runState (watchStep stream a.start) s pre).port.written := by
  induction during using List.reverseRecOn with
  | nil =>
      exact Or.inl hmem
  | append_singleton pre e ih =>
      rw [runState_append] at hmem
      rcases CallLog.mem_samples_note hmem with hold | ⟨rfl, hwritten⟩
      · rcases ih hold with hstart | ⟨q, post, rfl, hwritten⟩
        · exact Or.inl hstart
        · exact Or.inr ⟨q, post ++ [e], by simp, hwritten⟩
      · exact Or.inr ⟨pre, [], rfl, hwritten⟩

theorem arrivals_serialEvents (start : UInt32) (during : List CallEvent) :
    arrivals (during.map (CallEvent.serialEvent start)) =
      (arrivalTimes during).length := by
  induction during with
  | nil =>
      rfl
  | cons e during ih =>
      cases e with
      | dmaByte elapsed =>
          simpa [arrivals, arrivalTimes, CallEvent.serialEvent] using ih
      | step elapsed =>
          simpa [arrivals, arrivalTimes, CallEvent.serialEvent] using ih

/-- The bytes written during the call are those that have arrived. -/
theorem written_watched (during : List CallEvent) :
    (runState (watchStep stream a.start) s during).port.written =
      s.port.written + (arrivalTimes during).length := by
  rw [(watched_run stream a.start s during).2, written_runState,
    arrivals_serialEvents]

theorem elapsed_of_mem_arrivalTimes
    {elapsed : Nat} (hmem : elapsed ∈ arrivalTimes during) :
    elapsed ∈ during.map CallEvent.elapsed := by
  rw [arrivalTimes, List.mem_filterMap] at hmem
  obtain ⟨e, he, hsome⟩ := hmem
  cases e with
  | dmaByte t =>
      rw [List.mem_map]
      exact ⟨.dmaByte t, he, Option.some.inj hsome⟩
  | step t =>
      cases hsome

end Samples

section InTime

variable {stream : ByteMem} {history : List SerialEvent}
variable {a : ReadArgs} {during : List CallEvent}
variable {n : Nat} {c : ReadCall} {log : CallLog}

/--
A sample splits the bytes of the call in two: those it saw were in the ring no
later than it was taken, and the others not before.
-/
theorem TimedCall.sample_splits
    (htimed : TimedCall stream history a during)
    {sample : PollSample}
    (hmem : sample ∈ (callLog stream history a during).samples) :
    ∃ seen unseen,
      readyTimes stream history during = seen ++ unseen ∧
      readBefore stream history + seen.length = sample.written ∧
      (∀ t ∈ seen, t ≤ sample.elapsed) ∧
      ∀ t ∈ unseen, sample.elapsed ≤ t := by
  rcases sample_of_run hmem with hstart | ⟨pre, post, rfl, hwritten⟩
  · cases hstart
  · have hahead := htimed.setting.begun.reader.ahead
    have horder := htimed.timed
    simp only [List.map_append, List.map_cons, List.pairwise_append,
      List.pairwise_cons, List.mem_cons, CallEvent.elapsed] at horder
    obtain ⟨_, ⟨hlater, _⟩, hearlier⟩ := horder
    refine ⟨readyTimes stream history pre, arrivalTimes post, ?_, ?_,
      ?_, ?_⟩
    · simp [readyTimes, arrivalTimes, List.filterMap_append]
    · rw [hwritten, written_watched]
      simp only [readyTimes, List.length_append, List.length_replicate,
        unreadBefore, callBegun, ReadArgs.begun, SerialPort.resume,
        readSerial, UInt16.toNat_zero, Nat.add_zero] at hahead ⊢
      omega
    · intro t ht
      rw [readyTimes, List.mem_append, List.mem_replicate] at ht
      rcases ht with ⟨_, rfl⟩ | harrived
      · exact Nat.zero_le _
      · exact hearlier t (elapsed_of_mem_arrivalTimes harrived) _
          (Or.inl rfl)
    · intro t ht
      exact hlater t (elapsed_of_mem_arrivalTimes ht)

/-- A byte that is in the ring before a sample is taken has been written. -/
theorem TimedCall.seen_of_ready
    (htimed : TimedCall stream history a during)
    {sample : PollSample}
    (hmem : sample ∈ (callLog stream history a during).samples)
    {i t : Nat}
    (hready : (readyTimes stream history during)[i]? = some t)
    (hbefore : t < sample.elapsed) :
    readBefore stream history + i < sample.written := by
  obtain ⟨seen, unseen, hsplit, hwritten, _, hunseen⟩ :=
    htimed.sample_splits hmem
  by_contra hnot
  have hlate : seen.length ≤ i := by
    omega
  rw [hsplit, List.getElem?_append_right hlate] at hready
  have hge := hunseen t (List.mem_of_getElem? hready)
  omega

/-- A byte that a sample saw was in the ring no later than it was taken. -/
theorem TimedCall.ready_of_seen
    (htimed : TimedCall stream history a during)
    {sample : PollSample}
    (hmem : sample ∈ (callLog stream history a during).samples)
    {i : Nat}
    (hseen : readBefore stream history + i < sample.written) :
    ∃ t, (readyTimes stream history during)[i]? = some t ∧
      t ≤ sample.elapsed := by
  obtain ⟨seen, unseen, hsplit, hwritten, hearly, _⟩ :=
    htimed.sample_splits hmem
  have hlt : i < seen.length := by
    omega
  refine ⟨seen[i], ?_, hearly _ (List.getElem_mem hlt)⟩
  rw [hsplit, List.getElem?_append_left hlt,
    List.getElem?_eq_getElem hlt]

/--
The last round of a call at its end: all rounds before it were checked early,
and its sample is the last one.
-/
theorem LogInv.lastRound
    (hlog : LogInv n a c log)
    (hat : c.point = .finish)
    (hsome : log.samples ≠ []) :
    ∃ rounds sample checks elapsed,
      log.rounds = rounds ++ [(sample, elapsed)] ∧
      log.checks = checks ++ [elapsed] ∧
      Early a checks ∧
      (∀ round ∈ rounds, round.2 ∈ checks) ∧
      log.lastWritten n = sample.written := by
  have hbalance := hlog.allChecked hat
  rcases List.eq_nil_or_concat' log.samples with
    hnone | ⟨samples, sample, hsamples⟩
  · exact absurd hnone hsome
  rcases List.eq_nil_or_concat' log.checks with
    hnone | ⟨checks, elapsed, hchecks⟩
  · rw [hnone] at hbalance
    exact absurd (List.length_eq_zero_iff.mp hbalance) hsome
  have hlength : samples.length = checks.length := by
    rw [hsamples, hchecks, List.length_append, List.length_append]
      at hbalance
    exact Nat.add_right_cancel hbalance
  refine ⟨samples.zip checks, sample, checks, elapsed, ?_, hchecks,
    ?_, ?_, ?_⟩
  · rw [CallLog.rounds, hsamples, hchecks, List.zip_append hlength]
    rfl
  · rcases hlog.ended hat with ⟨_, hearly⟩ | ⟨early, late, hlast, hearly, _⟩
    · intro t ht
      apply hearly t
      rw [hchecks]
      exact List.mem_append_left _ ht
    · rw [hchecks] at hlast
      rw [(List.append_inj' hlast rfl).1]
      exact hearly
  · rintro ⟨_, t⟩ hmem
    exact (List.of_mem_zip hmem).2
  · simp [CallLog.lastWritten, hsamples]

/-- A call at its end is full exactly when no late round missed a byte. -/
theorem LogInv.full_iff_late
    (hlog : LogInv n a c log)
    (hat : c.point = .finish) :
    c.received.toNat = a.count.toNat ↔
      ∀ round ∈ log.rounds, a.limit ≤ round.2 →
        n + a.count.toNat ≤ round.1.written := by
  have hfull := hlog.full_iff (by rw [hat]; rfl)
  constructor
  · rintro hall round hmem hlate
    have hsample := (List.of_mem_zip hmem).1
    obtain ⟨rounds, last, checks, t, hrounds, _, hearly, hchecked,
      hwritten⟩ := hlog.lastRound hat (List.ne_nil_of_mem hsample)
    rw [hrounds, List.mem_append, List.mem_singleton] at hmem
    rcases hmem with hold | rfl
    · have hsoon := hearly _ (hchecked _ hold)
      omega
    · rw [← hwritten]
      exact hfull.mp hall
  · intro hrounded
    rcases hlog.ended hat with ⟨hall, _⟩ | ⟨early, t, hchecks, _, hlate⟩
    · exact hall
    · obtain ⟨rounds, last, checks, t', hrounds, hchecks', _, _,
        hwritten⟩ := hlog.lastRound hat (hlog.samples_ne_nil hat hchecks)
      rw [hchecks] at hchecks'
      have htick := (List.append_inj' hchecks' rfl).2
      rw [hfull, hwritten]
      apply hrounded (last, t')
      · rw [hrounds]
        simp
      · rw [← List.singleton_inj.mp htick]
        exact hlate

/-- With a round in every tick the last check is made by the deadline. -/
theorem lastCheck_le
    {checks : List Nat} {elapsed : Nat}
    (hpositive : 0 < a.limit)
    (hearly : Early a checks)
    (hchain : List.IsChain (fun before now => now ≤ before + 1)
      (0 :: (checks ++ [elapsed]))) :
    elapsed ≤ a.limit := by
  rw [← List.cons_append, List.isChain_append] at hchain
  obtain ⟨_, _, hstep⟩ := hchain
  have hlast := List.getLast?_eq_getLast_of_ne_nil
    (List.cons_ne_nil 0 checks)
  have hnext := hstep _ hlast elapsed rfl
  have hsoon : (0 :: checks).getLast (List.cons_ne_nil 0 checks) <
      a.limit := by
    rcases List.mem_cons.mp (List.getLast_mem
      (List.cons_ne_nil 0 checks)) with hzero | hold
    · rw [hzero]
      exact hpositive
    · exact hearly _ hold
  omega

end InTime

section Measured

variable {stream : ByteMem} {history : List SerialEvent}
variable {a : ReadArgs} {during : List CallEvent}

/-- The exact condition under which a call returns all its bytes. -/
theorem returnsAll_iff_inTime
    (hset : CallSetting stream history a during)
    (hidle : (callPort stream history a during).call = none) :
    ReturnsAll stream history a during ↔
      InTime stream history a during := by
  constructor
  · rintro ⟨r, hreply, hall⟩
    obtain ⟨_, c, _, _, _, hlogged, hat, rfl⟩ := hset.replied hreply
    exact (hlogged.full_iff_late hat).mp (UInt16.toNat_inj.mpr hall)
  · intro hinTime
    obtain ⟨r, hreply⟩ := hset.exists_reply hidle
    obtain ⟨_, c, _, _, _, hlogged, hat, rfl⟩ := hset.replied hreply
    have hall := (hlogged.full_iff_late hat).mpr hinTime
    exact ⟨c.reply, hreply, UInt16.toNat_inj.mp hall⟩

/-- Polled in every tick, a last byte before the deadline is in time. -/
theorem inTime_of_ready
    (htimed : TimedCall stream history a during)
    (hcount : 1 ≤ a.count.toNat)
    (hpolls : PollsEveryTick (callLog stream history a during))
    {t : Nat}
    (hready : (readyTimes stream history during)[a.count.toNat - 1]? =
      some t)
    (hsoon : t < a.limit) :
    InTime stream history a during := by
  rintro ⟨sample, elapsed⟩ hmem hlate
  have hsame := hpolls.1 _ hmem
  simp only at hsame hlate ⊢
  have hseen := htimed.seen_of_ready (List.of_mem_zip hmem).1 hready
    (by omega)
  omega

/-- Polled in every tick, a last byte after the deadline is too late. -/
theorem not_returnsAll_of_ready
    (htimed : TimedCall stream history a during)
    (hcount : 1 ≤ a.count.toNat)
    (hpositive : 0 < a.limit)
    (hpolls : PollsEveryTick (callLog stream history a during))
    {t : Nat}
    (hready : (readyTimes stream history during)[a.count.toNat - 1]? =
      some t)
    (hlate : a.limit < t) :
    ¬ ReturnsAll stream history a during := by
  rintro ⟨r, hreply, hreceived⟩
  obtain ⟨_, c, _, _, _, hlogged, hat, rfl⟩ :=
    htimed.setting.replied hreply
  have hall := (hlogged.full_iff (by rw [hat]; rfl)).mp
    (UInt16.toNat_inj.mpr hreceived)
  have hsome : (callLog stream history a during).samples ≠ [] := by
    intro hnone
    simp only [CallLog.lastWritten, hnone, List.getLast?_nil] at hall
    omega
  obtain ⟨rounds, sample, checks, elapsed, hrounds, hchecks, hearly, _,
    hwritten⟩ := hlogged.lastRound hat hsome
  have hround :
      (sample, elapsed) ∈ (callLog stream history a during).rounds := by
    rw [hrounds]
    simp
  have hsame := hpolls.1 _ hround
  have hcheck := hpolls.2
  rw [hchecks] at hcheck
  have hdeadline := lastCheck_le hpositive hearly hcheck
  obtain ⟨t', ht', hle⟩ :=
    @TimedCall.ready_of_seen _ _ _ _ htimed _ (List.of_mem_zip hround).1
      (a.count.toNat - 1) (by omega)
  rw [hready] at ht'
  have hequal := Option.some.inj ht'
  simp only at hsame
  omega

/--
The byte timeout is measured from the beginning of the call. A call comes back
within a round after its deadline, and it returns all bytes it was asked for
exactly when the round checked at or after the deadline finds them in the
ring. If it polls in every tick, it does so when the last of these bytes is
ready before the deadline and does not when that byte is ready only after it.
-/
theorem byte_timeout_measured_from_start
    (htimed : TimedCall stream history a during)
    (hcount : 1 ≤ a.count.toNat)
    (hpositive : 0 < a.limit) :
    (∀ pre elapsed post, during = pre ++ .step elapsed :: post →
      a.limit ≤ elapsed →
      roundSteps ≤ (tickReadings post).length →
      (callPort stream history a during).call = none) ∧
    ((callPort stream history a during).call = none →
      (ReturnsAll stream history a during ↔
        InTime stream history a during)) ∧
    (PollsEveryTick (callLog stream history a during) →
      ∀ t, (readyTimes stream history during)[a.count.toNat - 1]? =
          some t →
        (t < a.limit →
          (callPort stream history a during).call = none →
          ReturnsAll stream history a during) ∧
        (a.limit < t →
          ¬ ReturnsAll stream history a during)) := by
  refine ⟨?_, returnsAll_iff_inTime htimed.setting, ?_⟩
  · rintro pre elapsed post rfl hlate hlong
    exact htimed.setting.returns hlate hlong
  · intro hpolls t hready
    constructor
    · intro hsoon hidle
      rw [returnsAll_iff_inTime htimed.setting hidle]
      exact inTime_of_ready htimed hcount hpolls hready hsoon
    · intro hlate
      exact not_returnsAll_of_ready htimed hcount hpositive hpolls
        hready hlate

/-- A call for three bytes that may come two ticks apart. -/
def threeBytes : ReadArgs where
  buf := fun _ => 0
  count := 3
  byteTimeoutMs := 2
  start := 0

/-- The steps of a call that finds three bytes in the ring. -/
def promptSteps : List CallEvent :=
  List.replicate 18 (.step 0)

/-- Three bytes that are in the ring already are all returned. -/
theorem threeBytes_prompt :
    ReturnsAll letters [.dmaByte, .dmaByte, .dmaByte] threeBytes
      promptSteps := by
  have htimed :
      TimedCall letters [.dmaByte, .dmaByte, .dmaByte] threeBytes
        promptSteps :=
    { setting :=
        { idle := rfl
          limit := by decide
          ordered := by decide
          ticking := by decide
          fits := unreadFits_of_arrivals letters (by decide) }
      timed := by decide }
  have hlog :
      callLog letters [.dmaByte, .dmaByte, .dmaByte] threeBytes
        promptSteps = { samples := [⟨3, 0⟩], checks := [0] } := by
    rfl
  have hpolls :
      PollsEveryTick (callLog letters [.dmaByte, .dmaByte, .dmaByte]
        threeBytes promptSteps) := by
    rw [hlog]
    simp [PollsEveryTick, CallLog.rounds]
  obtain ⟨_, _, hprompt⟩ :=
    byte_timeout_measured_from_start htimed (by decide) (by decide)
  exact (hprompt hpolls 0 rfl).1 (by decide) rfl

/-- The same call with its bytes coming at ticks 1, 2 and 3. -/
def slowEvents : List CallEvent :=
  List.replicate 4 (.step 0) ++
    .dmaByte 1 :: List.replicate 8 (.step 1) ++
    .dmaByte 2 :: List.replicate 9 (.step 2) ++
    [.dmaByte 3]

/--
Three bytes that come one tick apart, with a byte timeout of two ticks and a
poll in every tick: the call returns two of them.
-/
theorem slowEvents_cut_off :
    TimedCall letters [] threeBytes slowEvents ∧
      KeepsComing threeBytes (readyTimes letters [] slowEvents) ∧
      PollsEveryTick (callLog letters [] threeBytes slowEvents) ∧
      (callPort letters [] threeBytes slowEvents).call = none ∧
      ¬ ReturnsAll letters [] threeBytes slowEvents := by
  have hlog :
      callLog letters [] threeBytes slowEvents =
        { samples := [⟨0, 0⟩, ⟨1, 1⟩, ⟨2, 2⟩], checks := [0, 1, 2] } := by
    rfl
  have hready : readyTimes letters [] slowEvents = [1, 2, 3] := by
    rfl
  have hreplies :
      ∀ reply ∈ callReplies letters [] threeBytes slowEvents,
        ∀ r, reply = some r → r.received ≠ 3 := by
    decide
  refine ⟨?_, ?_, ?_, rfl, ?_⟩
  · exact
      { setting :=
          { idle := rfl
            limit := by decide
            ordered := by decide
            ticking := by decide
            fits := unreadFits_of_arrivals letters (by decide) }
        timed := by decide }
  · rw [hready]
    simp [KeepsComing, threeBytes, ReadArgs.limit]
  · rw [hlog]
    simp [PollsEveryTick, CallLog.rounds]
  · rintro ⟨r, hreply, hall⟩
    exact hreplies _ hreply r rfl hall

end Measured

end Port
end ModbusRtu
