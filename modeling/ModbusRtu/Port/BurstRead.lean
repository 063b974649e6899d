import ModbusRtu.Port.ReadSerialReturn

/-!
# Reading a whole burst

A burst arrives while no call is in progress, and then a call asks for all of
it. The ring is empty before: the reader's index is the index of the DMA.

Emptiness is decided by comparing two indices modulo the ring size. A burst
shorter than the ring moves the index of the DMA away from that of the reader,
and the call finds the whole burst in its first sample. A burst that fills the
ring brings the index back to where it was. No byte has been overwritten, but
the ring looks empty, and the call reads nothing however long it waits.
-/

namespace ModbusRtu
namespace Port

open Kernel

section Burst

variable {stream : ByteMem} {p : SerialPort} {a : ReadArgs}

/-- The reader's index is that of the DMA. -/
def RingLooksEmpty (p : SerialPort) : Prop :=
  p.uart2RxDmaLastPos.toNat = p.written % uart2RxDmaBufSize

/-- As many bytes arrive as the call asks for, and then the call is made. -/
def burstEvents (a : ReadArgs) (ticks : List UInt32) :
    List SerialEvent :=
  List.replicate a.count.toNat .dmaByte ++
    a.event :: ticks.map SerialEvent.step

/--
Whatever the ticks, the call returns after enough steps, with as many bytes as
it was asked for, and these are the burst in order.
-/
def BurstReadable (stream : ByteMem) (p : SerialPort) (a : ReadArgs) :
    Prop :=
  ∃ enough, ∀ ticks : List UInt32, enough ≤ ticks.length →
    ∃ r, some r ∈ runReplies (serialStep stream) p (burstEvents a ticks) ∧
      r.received = a.count ∧
      r.bytes = window stream p.written a.count.toNat

/-- The port when the burst has arrived. -/
def burstPort (stream : ByteMem) (p : SerialPort) (n : Nat) :
    SerialPort :=
  runState (serialStep stream) p (List.replicate n .dmaByte)

/-- The steps of a call that read given ticks. -/
def tickSteps (a : ReadArgs) (ticks : List UInt32) : List CallEvent :=
  ticks.map fun tick => .step (tick - a.start).toNat

theorem serialEvents_tickSteps (a : ReadArgs) (ticks : List UInt32) :
    (tickSteps a ticks).map (CallEvent.serialEvent a.start) =
      ticks.map SerialEvent.step := by
  rw [tickSteps, List.map_map]
  apply List.map_congr_left
  intro tick _
  simp only [Function.comp_apply, CallEvent.serialEvent,
    UInt32.ofNat_toNat]
  congr 1
  refine UInt32.toNat_inj.mp ?_
  have htick := tick.toNat_lt
  have hstart := a.start.toNat_lt
  rw [UInt32.toNat_add, UInt32.toNat_sub]
  omega

theorem length_tickReadings_tickSteps
    (a : ReadArgs) (ticks : List UInt32) :
    (tickReadings (tickSteps a ticks)).length = ticks.length := by
  simp [tickSteps, tickReadings]

/-- An arriving byte leaves an idle port idle, with its reader where it is. -/
theorem burstPort_spec
    {n m : Nat}
    (hinv : ReaderInv stream p n)
    (hidle : p.call = none) :
    ReaderInv stream (burstPort stream p m) n ∧
      (burstPort stream p m).call = none ∧
      (burstPort stream p m).uart2RxDmaLastPos = p.uart2RxDmaLastPos ∧
      (burstPort stream p m).written = p.written + m := by
  induction m generalizing p with
  | zero =>
      exact ⟨hinv, hidle, rfl, rfl⟩
  | succ m ih =>
      obtain ⟨hreader, hstill, hpos, hwritten⟩ :=
        ih (readerInv_dmaStore hinv) (p := dmaStore stream p) hidle
      refine ⟨hreader, hstill, hpos, ?_⟩
      rw [burstPort, List.replicate_succ, runState_cons]
      exact hwritten.trans (by simp only [dmaStore]; omega)

/-- Arriving bytes are not answered. -/
theorem burst_silent
    {m : Nat} {reply : Option ReadReturn}
    (hmem : reply ∈ runReplies (serialStep stream) p
      (List.replicate m .dmaByte)) :
    reply = none := by
  induction m generalizing p with
  | zero =>
      cases hmem
  | succ m ih =>
      rw [List.replicate_succ, runReplies_cons, List.mem_cons] at hmem
      rcases hmem with hfirst | hlater
      · exact hfirst
      · exact ih hlater

/-- The replies to the call are those of the port with the burst in its ring. -/
theorem runReplies_burstEvents
    (hidle : (burstPort stream p a.count.toNat).call = none)
    (ticks : List UInt32) {r : ReadReturn} :
    some r ∈ runReplies (serialStep stream) p (burstEvents a ticks) ↔
      some r ∈ runReplies (watchStep stream a.start)
        (a.begun (burstPort stream p a.count.toNat))
        (tickSteps a ticks) := by
  rw [(watched_run stream a.start _ _).1, serialEvents_tickSteps,
    burstEvents, runReplies_append, List.mem_append, runReplies_cons]
  rw [← burstPort, serialStep_event stream a hidle, List.mem_cons]
  constructor
  · rintro (hburst | hnone | hlater)
    · cases burst_silent hburst
    · cases hnone
    · exact hlater
  · intro hlater
    exact Or.inr (Or.inr hlater)

end Burst

section ShorterThanRing

variable {stream : ByteMem} {n w : Nat} {a : ReadArgs}
variable {s : WatchedPort} {c : ReadCall} {log : CallLog}

/-- The last sample is one of the samples. -/
theorem lastWritten_of_forall
    (hsome : log.samples ≠ [])
    (hall : ∀ sample ∈ log.samples, sample.written = w) :
    log.lastWritten n = w := by
  have hlast := List.getLast?_eq_getLast_of_ne_nil hsome
  rw [CallLog.lastWritten, hlast]
  exact hall _ (List.getLast_mem hsome)

/-- So many bytes have been written, now and at every sample of the call. -/
def SawAll (w : Nat) (s : WatchedPort) : Prop :=
  s.port.written = w ∧ ∀ sample ∈ s.log.samples, sample.written = w

/-- A step of the call writes nothing. -/
theorem sawAll_step
    (hsaw : SawAll w s) (elapsed : Nat) :
    SawAll w (watchStep stream a.start s (.step elapsed)).2 := by
  obtain ⟨hwritten, hsamples⟩ := hsaw
  constructor
  · rcases serialStep_ring stream s.port
      (CallEvent.serialEvent a.start (.step elapsed)) with
      ⟨hbyte, _⟩ | ⟨_, _, hsame⟩
    · cases hbyte
    · exact hsame.trans hwritten
  · intro sample hmem
    rcases CallLog.mem_samples_note hmem with hold | ⟨_, hnow⟩
    · exact hsamples sample hold
    · exact hnow.trans hwritten

/-- A call whose samples have all seen the whole burst is full after one. -/
theorem full_of_sawAll
    (hlog : LogInv n a c s.log)
    (hsaw : SawAll (n + a.count.toNat) s)
    (hdrained : c.point.draining = false)
    (hsampled : s.log.samples ≠ []) :
    c.received.toNat = a.count.toNat := by
  rw [hlog.full_iff hdrained,
    lastWritten_of_forall hsampled hsaw.2]

/-- A step of a call with the whole burst in the ring is in its last round. -/
theorem inLastRound_of_sawAll
    (hwatched : Watched stream n a s)
    (hsaw : SawAll (n + a.count.toNat) s)
    (hshort : a.count.toNat < uart2RxDmaBufSize)
    {e : CallEvent} (hticking : e.Ticking) :
    InLastRound n a s e := by
  refine ⟨hticking, ?_, ?_⟩
  · intro c _
    rw [hsaw.1]
    omega
  · intro elapsed _ c hcall hat
    rcases hwatched with hidle | ⟨c', hinv⟩
    · rw [hidle] at hcall
      cases hcall
    · have hsame := hinv.call
      rw [hcall] at hsame
      have hc := Option.some.inj hsame
      subst hc
      have hsampled : s.log.samples ≠ [] :=
        List.ne_nil_of_length_eq_add_one (hinv.logged.balance_at hat)
      right
      exact (full_of_sawAll hinv.logged hsaw (by rw [hat]; rfl)
        hsampled).ge

/-- A call that ends although it has not waited has read the whole burst. -/
theorem full_at_end
    (hlog : LogInv n a c s.log)
    (hsaw : SawAll (n + a.count.toNat) s)
    (hat : c.point = .finish) :
    c.received.toNat = a.count.toNat := by
  rcases hlog.ended hat with ⟨hfull, _⟩ | ⟨early, elapsed, hchecks, _, _⟩
  · exact hfull
  · exact full_of_sawAll hlog hsaw (by rw [hat]; rfl)
      (hlog.samples_ne_nil hat hchecks)

/-- The call is watched, and the whole burst is in the ring. -/
def BurstInv (stream : ByteMem) (n : Nat) (a : ReadArgs)
    (s : WatchedPort) : Prop :=
  Watched stream n a s ∧ SawAll (n + a.count.toNat) s

/-- The event is a step taken before 2 ^ 32 ticks have passed. -/
def IsStep (e : CallEvent) : Prop :=
  ∃ elapsed, e = .step elapsed ∧ elapsed < 4294967296

theorem burstInv_round
    (hshort : a.count.toNat < uart2RxDmaBufSize)
    {e : CallEvent}
    (hinv : BurstInv stream n a s) (hstep : IsStep e) :
    InLastRound n a s e := by
  obtain ⟨elapsed, rfl, hlt⟩ := hstep
  exact inLastRound_of_sawAll hinv.1 hinv.2 hshort hlt

theorem burstInv_step
    (hlimit : 0 ≤ a.byteTimeoutMs)
    (hshort : a.count.toNat < uart2RxDmaBufSize)
    {e : CallEvent}
    (hinv : BurstInv stream n a s) (hstep : IsStep e) :
    BurstInv stream n a (watchStep stream a.start s e).2 := by
  obtain ⟨hticking, hunread, _⟩ := burstInv_round hshort hinv hstep
  obtain ⟨elapsed, rfl, _⟩ := hstep
  exact ⟨watched_step hlimit hinv.1 hticking hunread,
    sawAll_step hinv.2 elapsed⟩

theorem burstInv_begun
    {p : SerialPort}
    (hinv : ReaderInv stream p p.written)
    (hidle : p.call = none) :
    BurstInv stream p.written a
      (a.begun (burstPort stream p a.count.toNat)) := by
  obtain ⟨hreader, hstill, _, hwritten⟩ :=
    @burstPort_spec stream p p.written a.count.toNat hinv hidle
  exact ⟨Or.inr ⟨_, callInv_begun hreader hstill a⟩, hwritten,
    fun sample hmem => by cases hmem⟩

theorem tickSteps_isStep
    (stream : ByteMem) (a : ReadArgs) (s : WatchedPort)
    (ticks : List UInt32) :
    StepsMeet (watchStep stream a.start) (fun _ e => IsStep e) s
      (tickSteps a ticks) := by
  apply stepsMeet_of_forall_mem
  intro e hmem
  obtain ⟨tick, _, rfl⟩ := List.mem_map.mp hmem
  exact ⟨_, rfl, UInt32.toNat_lt _⟩

/-- A burst shorter than the ring is read as a whole in the first round. -/
theorem burstReadable_of_lt
    {p : SerialPort}
    (hinv : ReaderInv stream p p.written)
    (hidle : p.call = none)
    (hlimit : 0 ≤ a.byteTimeoutMs)
    (hshort : a.count.toNat < uart2RxDmaBufSize) :
    BurstReadable stream p a := by
  refine ⟨roundSteps, ?_⟩
  intro ticks hlong
  obtain ⟨hreader, hstill, _, _⟩ :=
    @burstPort_spec stream p p.written a.count.toNat hinv hidle
  have hbegun := callInv_begun hreader hstill a
  have hstart : BurstInv stream p.written a
      (a.begun (burstPort stream p a.count.toNat)) :=
    burstInv_begun hinv hidle
  have hkept : ∀ t e, BurstInv stream p.written a t → IsStep e →
      BurstInv stream p.written a (watchStep stream a.start t e).2 :=
    fun _ _ => burstInv_step hlimit hshort
  have hsteps := tickSteps_isStep stream a
    (a.begun (burstPort stream p a.count.toNat)) ticks
  have hlast : StepsMeet (watchStep stream a.start)
      (InLastRound p.written a)
      (a.begun (burstPort stream p a.count.toNat)) (tickSteps a ticks) :=
    stepsMeet_of_invariant hkept (fun _ _ => burstInv_round hshort)
      hstart hsteps
  have hroom : StepsMeet (watchStep stream a.start)
      (fun t e => e.Ticking ∧ UnreadInCall p.written t)
      (a.begun (burstPort stream p a.count.toNat)) (tickSteps a ticks) := by
    refine stepsMeet_of_invariant hkept ?_ hstart hsteps
    intro t e ht he
    obtain ⟨hticking, hunread, _⟩ := burstInv_round hshort ht he
    exact ⟨hticking, hunread⟩
  have hreturned := call_returns hstart.1 hlimit hlast
    (by rw [length_tickReadings_tickSteps]; exact hlong)
  cases callOutcome_run hbegun hlimit hroom with
  | running c hinv' hsilent =>
      rw [hinv'.call] at hreturned
      cases hreturned
  | returned pre c hpre hinv' hat _ _ hreply =>
      obtain ⟨post, hsplit⟩ := hpre
      rw [← hsplit] at hsteps
      have hend := invariant_run hkept hstart
        ((stepsMeet_append _ _ _ _ _).mp hsteps).1
      have hfull := full_at_end hinv'.logged hend.2 hat
      refine ⟨c.reply, (runReplies_burstEvents hstill ticks).mpr hreply,
        UInt16.toNat_inj.mp hfull, ?_⟩
      rw [← hfull]
      exact hinv'.content

end ShorterThanRing

section AsLongAsRing

variable {stream : ByteMem} {p : SerialPort} {a : ReadArgs}

/-- The ring looks empty, and the call in progress has read nothing. -/
def EmptyHanded (p : SerialPort) : Prop :=
  RingLooksEmpty p ∧
    ∀ c, p.call = some c →
      c.received = 0 ∧
      match c.point with
      | .outerTest | .sample | .timeout | .finish => True
      | .innerTest => c.dmaPos = p.uart2RxDmaLastPos
      | .copy | .advance | .wrap => False

/-- A call that finds the ring empty keeps finding it empty. -/
theorem emptyHanded_step
    (hempty : EmptyHanded p) (tick : UInt32) :
    (∀ r, (serialStep stream p (.step tick)).1 = some r →
      r.received = 0) ∧
    EmptyHanded (serialStep stream p (.step tick)).2 := by
  obtain ⟨hlooks, hcalls⟩ := hempty
  simp only [serialStep]
  cases hcall : p.call with
  | none =>
      refine ⟨(fun r hr => by cases hr), hlooks, ?_⟩
      simp [hcall]
  | some c =>
      obtain ⟨hzero, hpoint⟩ := hcalls c hcall
      simp only
      have hmove := readSerialStep_move p c tick
      generalize readSerialStep p c tick = out at hmove ⊢
      cases hmove with
      | enter hat | leave hat | drained hat | expired hat
      | waiting hat =>
          refine ⟨(fun r hr => by cases hr), hlooks, ?_⟩
          intro d hd
          have hd := Option.some.inj hd
          subst hd
          exact ⟨hzero, trivial⟩
      | sampled hat dmaPos hdma =>
          refine ⟨(fun r hr => by cases hr), hlooks, ?_⟩
          intro d hd
          have hd := Option.some.inj hd
          subst hd
          refine ⟨hzero, UInt16.toNat_inj.mp ?_⟩
          rw [hdma]
          exact hlooks.symm
      | unread hat hne =>
          simp only [hat] at hpoint
          exact absurd hpoint.symm hne
      | copied hat | advanced hat | wrapped hat | inside hat =>
          simp [hat] at hpoint
      | returned hat =>
          refine ⟨?_, hlooks, (fun d hd => by cases hd)⟩
          intro r hr
          have hr := Option.some.inj hr
          subst hr
          exact hzero

/-- A burst that fills the ring brings the index of the DMA back. -/
theorem emptyHanded_begun
    (hinv : ReaderInv stream p p.written)
    (hlooks : RingLooksEmpty p)
    (hidle : p.call = none)
    (hfull : a.count.toNat = uart2RxDmaBufSize) :
    EmptyHanded (a.begun (burstPort stream p a.count.toNat)).port := by
  obtain ⟨_, _, hpos, hwritten⟩ :=
    @burstPort_spec stream p p.written a.count.toNat hinv hidle
  constructor
  · have hfar : (p.written + a.count.toNat) % uart2RxDmaBufSize =
        p.written % uart2RxDmaBufSize := by
      rw [hfull, Nat.add_mod_right]
    simp only [RingLooksEmpty, ReadArgs.begun, SerialPort.resume, hpos,
      hwritten, hfar]
    exact hlooks
  · intro c hc
    have hc := Option.some.inj hc
    subst hc
    exact ⟨rfl, trivial⟩

theorem not_burstReadable_of_full
    (hinv : ReaderInv stream p p.written)
    (hlooks : RingLooksEmpty p)
    (hidle : p.call = none)
    (hfull : a.count.toNat = uart2RxDmaBufSize) :
    ¬ BurstReadable stream p a := by
  rintro ⟨enough, hreadable⟩
  obtain ⟨r, hreply, hreceived, _⟩ :=
    hreadable (List.replicate enough 0) (by simp)
  obtain ⟨_, hstill, _, _⟩ :=
    @burstPort_spec stream p p.written a.count.toNat hinv hidle
  rw [runReplies_burstEvents hstill, (watched_run stream a.start _ _).1,
    serialEvents_tickSteps] at hreply
  have hsteps : StepsMeet (serialStep stream)
      (fun _ e => ∃ tick, e = .step tick)
      (a.begun (burstPort stream p a.count.toNat)).port
      ((List.replicate enough 0).map SerialEvent.step) := by
    apply stepsMeet_of_forall_mem
    intro e hmem
    obtain ⟨tick, _, rfl⟩ := List.mem_map.mp hmem
    exact ⟨tick, rfl⟩
  have hkept : ∀ q e, EmptyHanded q → (∃ tick, e = .step tick) →
      EmptyHanded (serialStep stream q e).2 := by
    rintro q _ hq ⟨tick, rfl⟩
    exact (emptyHanded_step hq tick).2
  have hsilent : ∀ q e, EmptyHanded q → (∃ tick, e = .step tick) →
      ∀ r, (serialStep stream q e).1 = some r → r.received = 0 := by
    rintro q _ hq ⟨tick, rfl⟩
    exact (emptyHanded_step hq tick).1
  have hnothing :=
    (forall_mem_runReplies_iff (serialStep stream)
      (fun reply => ∀ r, reply = some r → r.received = 0) _ _).mpr
    (stepsMeet_of_invariant (P := EmptyHanded) hkept hsilent
      (emptyHanded_begun hinv hlooks hidle hfull) hsteps)
  have hzero := hnothing _ hreply r rfl
  rw [← hreceived, hzero] at hfull
  cases hfull

end AsLongAsRing

section BurstResult

/-- An idle port whose ring looks empty has nothing left to read. -/
theorem readerInv_of_looksEmpty
    {stream : ByteMem} {history : List SerialEvent}
    (hidle : (portAfter stream history).call = none)
    (hlooks : RingLooksEmpty (portAfter stream history)) :
    ReaderInv stream (portAfter stream history)
      (portAfter stream history).written where
  ahead := Nat.le_refl _
  ring := ringHolds_portAfter stream history
  idle := fun _ => hlooks
  busy := by
    intro c hc
    rw [hidle] at hc
    cases hc

/--
Let the ring look empty on an idle port that any history has led to. A burst
that is no longer than the ring is readable exactly when it is shorter.
-/
theorem burst_readable_iff
    (stream : ByteMem) (history : List SerialEvent) (a : ReadArgs)
    (hidle : (portAfter stream history).call = none)
    (hlooks : RingLooksEmpty (portAfter stream history))
    (hlimit : 0 ≤ a.byteTimeoutMs)
    (hfits : a.count.toNat ≤ uart2RxDmaBufSize) :
    BurstReadable stream (portAfter stream history) a ↔
      a.count.toNat < uart2RxDmaBufSize := by
  have hinv := readerInv_of_looksEmpty hidle hlooks
  constructor
  · intro hreadable
    by_contra hnot
    exact not_burstReadable_of_full hinv hlooks hidle
      (Nat.le_antisymm hfits (Nat.not_lt.mp hnot)) hreadable
  · intro hshort
    exact burstReadable_of_lt hinv hidle hlimit hshort

/-- A call for so many bytes that does not wait. -/
def pollFor (count : UInt16) : ReadArgs where
  buf := fun _ => 0
  count := count
  byteTimeoutMs := 0
  start := 0

/-- A burst one byte shorter than the ring is readable after reset. -/
theorem burst_readable_255 :
    BurstReadable letters (portAfter letters []) (pollFor 255) := by
  have hiff := burst_readable_iff letters [] (pollFor 255)
    rfl rfl (by decide) (by decide)
  exact hiff.mpr (by decide)

/-- A burst that fills the ring is not readable after reset. -/
theorem burst_not_readable_256 :
    ¬ BurstReadable letters (portAfter letters []) (pollFor 256) := by
  exact not_burstReadable_of_full
    (readerInv_of_looksEmpty rfl rfl) rfl rfl rfl

end BurstResult

end Port
end ModbusRtu
