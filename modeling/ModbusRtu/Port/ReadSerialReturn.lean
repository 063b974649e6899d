import ModbusRtu.Port.ReadSerialCall

/-!
# A call of read_serial returns

The rank of a call in progress counts the steps it can still take in its
present round. Every step lowers it except one: a timeout check before the
deadline that finds bytes missing starts a new round. So a call that meets no
such check any more returns within a fixed number of steps, whatever arrives
in the meantime.
-/

namespace ModbusRtu
namespace Port

open Kernel

section Rank

variable {stream : ByteMem} {n : Nat} {a : ReadArgs}
variable {s : WatchedPort} {c : ReadCall}

/-- Sampled bytes that the inner loop has not read yet. -/
def sampledLeft (n : Nat) (log : CallLog) (c : ReadCall) : Nat :=
  log.lastWritten n - (n + c.received.toNat)

/-- Most steps that a call takes without starting a new round. -/
def roundSteps : Nat := 4 * uart2RxDmaBufSize + 2

/-- Steps left in the present round. -/
def callRank (n : Nat) (log : CallLog) (c : ReadCall) : Nat :=
  match c.point with
  | .outerTest =>
      if c.received.toNat < c.count.toNat then roundSteps else 2
  | .sample => 4 * uart2RxDmaBufSize + 1
  | .innerTest => 4 * sampledLeft n log c + 4
  | .copy => 4 * sampledLeft n log c + 3
  | .advance => 4 * sampledLeft n log c + 6
  | .wrap => 4 * sampledLeft n log c + 5
  | .timeout => 3
  | .finish => 1

/-- The rank of a watched port; zero when its call has returned. -/
def portRank (n : Nat) (s : WatchedPort) : Nat :=
  match s.port.call with
  | none => 0
  | some c => callRank n s.log c

theorem portRank_of_call
    (hcall : s.port.call = some c) :
    portRank n s = callRank n s.log c := by
  simp only [portRank, hcall]

theorem portRank_eq_zero_iff : portRank n s = 0 ↔ s.port.call = none := by
  unfold portRank
  cases hcall : s.port.call with
  | none =>
      simp
  | some c =>
      simp only [reduceCtorEq, iff_false]
      unfold callRank
      cases c.point with
      | outerTest =>
          simp only
          split <;> simp [roundSteps]
      | sample | innerTest | copy | advance | wrap | timeout | finish =>
          simp

/-- No call in progress has more steps left than a whole round. -/
theorem callRank_le
    (hlog : LogInv n a c s.log) :
    callRank n s.log c ≤ roundSteps := by
  have hdraining := hlog.draining
  unfold callRank
  cases hat : c.point with
  | innerTest | copy | advance | wrap =>
      rw [hat] at hdraining
      obtain ⟨_, hnear, _⟩ := hdraining rfl
      simp only [sampledLeft, roundSteps, uart2RxDmaBufSize] at hnear ⊢
      omega
  | outerTest =>
      simp only [roundSteps, uart2RxDmaBufSize]
      split <;> omega
  | sample | timeout | finish =>
      simp only [roundSteps, uart2RxDmaBufSize]
      omega

/-- The step is no check before the deadline with bytes still missing. -/
def LastRound (a : ReadArgs) (s : WatchedPort) (elapsed : Nat) : Prop :=
  ∀ c, s.port.call = some c → c.point = .timeout →
    a.limit ≤ elapsed ∨ a.count.toNat ≤ c.received.toNat

/-- Every step of the last round lowers the rank. -/
theorem portRank_step
    (hinv : CallInv stream n a s c)
    (hlimit : 0 ≤ a.byteTimeoutMs)
    (hunread : s.port.written <
      n + c.received.toNat + uart2RxDmaBufSize)
    {elapsed : Nat} (hlt : elapsed < 4294967296)
    (hlast : LastRound a s elapsed) :
    portRank n (watchStep stream a.start s (.step elapsed)).2 <
      portRank n s := by
  have hmove := readSerialStep_move s.port c
    (a.start + UInt32.ofNat elapsed)
  obtain ⟨hle, hpoint⟩ := hinv.reader.busy c hinv.call
  have hlog := hinv.logged
  have hahead := hinv.reader.ahead
  have hcall := hinv.call
  have hexpire := limit_reached_iff hlimit hlt
  rw [portRank_of_call hcall]
  simp only [watchStep, CallEvent.serialEvent, serialStep, hcall,
    CallLog.note, Option.map_some]
  generalize readSerialStep s.port c (a.start + UInt32.ofNat elapsed) =
    out at hmove ⊢
  cases hmove with
  | enter hat hmore =>
      simp only [hat, portRank, SerialPort.resume, callRank, hmore,
        if_true, roundSteps]
      omega
  | leave hat hdone =>
      simp only [hat, portRank, SerialPort.resume, callRank]
      split <;> simp [roundSteps]
  | sampled hat dmaPos hdma =>
      simp only [hat, portRank, SerialPort.resume, callRank, sampledLeft,
        lastWritten_snoc]
      omega
  | unread hat hne hmore =>
      simp only [hat, portRank, SerialPort.resume, callRank, sampledLeft]
      omega
  | drained hat hstop =>
      simp only [hat, portRank, SerialPort.resume, callRank]
      omega
  | copied hat =>
      simp only [PointInv, hat] at hpoint
      obtain ⟨hpos, _, hne, hmore⟩ := hpoint
      have hleft := hlog.sampledLeft (by rw [hat]; rfl) hpos hne
      have hnext := toNat_received_succ hmore
      simp only [hat, portRank, SerialPort.resume, callRank, sampledLeft,
        hnext]
      omega
  | advanced hat | wrapped hat hend | inside hat hlt' =>
      simp only [hat, portRank, SerialPort.resume, callRank, sampledLeft]
      omega
  | expired hat _ helapsed =>
      simp only [hat, portRank, SerialPort.resume, callRank]
      omega
  | waiting hat hwait =>
      rw [hinv.byteTimeoutMs, hinv.start] at hwait
      rcases hlast c hcall hat with hlate | hfull
      · have hwrong := UInt32.not_lt.mpr (hexpire.mpr hlate)
        exact absurd (hwait hlimit) hwrong
      · rw [← hinv.count, ← Nat.not_lt] at hfull
        simp only [hat, portRank, SerialPort.resume, callRank, hfull,
          if_false]
        omega
  | returned hat =>
      simp only [hat, portRank, callRank]
      omega

end Rank

section Return

variable {stream : ByteMem} {n : Nat} {a : ReadArgs}
variable {s : WatchedPort} {c : ReadCall}

/-- The event is a step of the call. -/
def CallEvent.isStep : CallEvent → Bool
  | .dmaByte _ => false
  | .step _ => true

theorem countP_isStep (during : List CallEvent) :
    during.countP CallEvent.isStep = (tickReadings during).length := by
  induction during with
  | nil =>
      rfl
  | cons e during ih =>
      rw [List.countP_cons, ih]
      cases e with
      | dmaByte elapsed | step elapsed =>
          simp [CallEvent.isStep, tickReadings]

/-- The call is in progress as it should be, or it has returned. -/
def Watched (stream : ByteMem) (n : Nat) (a : ReadArgs)
    (s : WatchedPort) : Prop :=
  s.port.call = none ∨ ∃ c, CallInv stream n a s c

/-- What an event of the last round may be. -/
def InLastRound (n : Nat) (a : ReadArgs) (s : WatchedPort)
    (e : CallEvent) : Prop :=
  e.Ticking ∧ UnreadInCall n s ∧
    ∀ elapsed, e = .step elapsed → LastRound a s elapsed

theorem watched_step
    (hlimit : 0 ≤ a.byteTimeoutMs)
    (hwatched : Watched stream n a s)
    {e : CallEvent} (hticking : e.Ticking) (hunread : UnreadInCall n s) :
    Watched stream n a (watchStep stream a.start s e).2 := by
  rcases hwatched with hidle | ⟨c, hinv⟩
  · exact Or.inl (@watchStep_idle stream a _ hidle e).2.1
  · have hnext := callStep_of_event hinv hlimit hticking hunread
    generalize watchStep stream a.start s e = out at hnext ⊢
    cases hnext with
    | going hinv' =>
        exact Or.inr ⟨_, hinv'⟩
    | returned hat =>
        exact Or.inl rfl

theorem watched_rank
    (hlimit : 0 ≤ a.byteTimeoutMs)
    (hwatched : Watched stream n a s)
    {e : CallEvent} (hlast : InLastRound n a s e) :
    portRank n (watchStep stream a.start s e).2 ≤
      portRank n s - e.isStep.toNat := by
  obtain ⟨hticking, hunread, hround⟩ := hlast
  rcases hwatched with hidle | ⟨c, hinv⟩
  · have hstill := (@watchStep_idle stream a _ hidle e).2.1
    rw [portRank_eq_zero_iff.mpr hstill]
    exact Nat.zero_le _
  · cases e with
    | dmaByte elapsed =>
        exact Nat.le_refl _
    | step elapsed =>
        have hlower := portRank_step hinv hlimit (hunread c hinv.call)
          hticking (hround elapsed rfl)
        exact Nat.le_sub_one_of_lt hlower

theorem portRank_le
    (hwatched : Watched stream n a s) :
    portRank n s ≤ roundSteps := by
  rcases hwatched with hidle | ⟨c, hinv⟩
  · rw [portRank_eq_zero_iff.mpr hidle]
    exact Nat.zero_le _
  · rw [portRank_of_call hinv.call]
    exact callRank_le hinv.logged

/-- In its last round a call returns within so many steps. -/
theorem call_returns
    (hwatched : Watched stream n a s)
    (hlimit : 0 ≤ a.byteTimeoutMs)
    {during : List CallEvent}
    (hlast : StepsMeet (watchStep stream a.start)
      (InLastRound n a) s during)
    (hlong : roundSteps ≤ (tickReadings during).length) :
    (runState (watchStep stream a.start) s during).port.call = none := by
  have hrank := @ranked_run _ _ _ (watchStep stream a.start)
    (InLastRound n a) (Watched stream n a) (portRank n) CallEvent.isStep
    (fun t e hkept hround =>
      ⟨watched_step hlimit hkept hround.1 hround.2.1,
        watched_rank hlimit hkept hround⟩)
    s during hwatched hlast
  have hbound := portRank_le hwatched
  rw [countP_isStep] at hrank
  apply (portRank_eq_zero_iff (n := n)).mp
  omega

end Return

end Port
end ModbusRtu
