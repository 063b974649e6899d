import ModbusRtu.Port.ExactHazards
import ModbusRtu.Port.SerialLine

/-!
# How long a poll waits

Every call of a poll waits with one of two timeouts of the instance or with
none. The calls of one poll together wait at most twice the read timeout and
eight times the byte timeout, and no smaller bound holds: so long waits a poll
that overhears a file request and its response, all of whose bytes come at the
last moment.

So on the serial port a poll always comes to an end, whatever has happened
before and even if nothing arrives any more.
-/

namespace ModbusRtu
namespace Port

open Kernel

section Waits

/-- The timeout that a call is made with. -/
def LineCall.timeout : LineCall → Int32
  | .read _ t => t
  | .write _ t => t

/-- The ticks after which a call gives up, if its timeout is not negative. -/
def LineCall.wait (q : LineCall) : Nat :=
  q.timeout.toNatClampNeg

/-- The ticks that calls wait together. -/
def waits (trace : List LineCall) : Nat :=
  (trace.map LineCall.wait).sum

theorem waits_snoc (trace : List LineCall) (q : LineCall) :
    waits (trace ++ [q]) = waits trace + q.wait := by
  simp [waits]

/-- The call asks for as many bytes as the buffer holds at most. -/
def LineCall.Fits : LineCall → Prop
  | .read count _ => count ≤ msgBufSize
  | .write _ _ => True

/-- The timeout is one of the instance or zero. -/
def LineCall.TimedBy (bt rt : Int32) (q : LineCall) : Prop :=
  q.timeout = 0 ∨ q.timeout = bt ∨ q.timeout = rt

/-- The calls have the timeouts of the instance and wait so long at most. -/
structure Patient (bt rt : Int32) (n : Nat) (trace : List LineCall) :
    Prop where
  fits : ∀ q ∈ trace, q.Fits
  timedBy : ∀ q ∈ trace, q.TimedBy bt rt
  waits_le : waits trace ≤ n

/-- Whatever is answered, a dialogue waits so many ticks at most. -/
def Spends {α : Type} (bt rt : Int32) (n : Nat)
    (c : Dialogue LineCall LineAnswer α) : Prop :=
  ∀ trace m, Patient bt rt m trace →
    Ends asked (Patient bt rt (m + n)) c trace fun _ =>
      Patient bt rt (m + n)

end Waits

section Spending

variable {α β : Type}
variable {bt rt : Int32} {m n : Nat}
variable {c : Dialogue LineCall LineAnswer α}

theorem Patient.mono
    {trace : List LineCall} (h : Patient bt rt m trace) (hle : m ≤ n) :
    Patient bt rt n trace :=
  ⟨h.fits, h.timedBy, Nat.le_trans h.waits_le hle⟩

theorem Spends.mono (h : Spends bt rt m c) (hle : m ≤ n) :
    Spends bt rt n c := by
  intro trace k hpatient
  exact (h trace k hpatient).mono
    (fun _ _ hend => hend.mono (by omega)) fun _ hend => hend.mono (by omega)

theorem patient_nil (bt rt : Int32) : Patient bt rt 0 [] :=
  ⟨fun _ hq => (List.not_mem_nil hq).elim,
    fun _ hq => (List.not_mem_nil hq).elim, Nat.le_refl 0⟩

theorem spends_ret (a : α) : Spends bt rt n (.ret a) := by
  intro trace k hpatient
  exact hpatient.mono (by omega)

theorem spends_fault :
    Spends bt rt n (.fault : Dialogue LineCall LineAnswer α) := by
  intro trace k hpatient
  exact hpatient.mono (by omega)

theorem forall_mem_snoc
    {P : LineCall → Prop} {trace : List LineCall} {q : LineCall}
    (htrace : ∀ q ∈ trace, P q) (hq : P q) :
    ∀ q' ∈ trace ++ [q], P q' := by
  intro q' hq'
  rcases List.mem_append.mp hq' with hold | hnew
  · exact htrace q' hold
  · rw [List.mem_singleton.mp hnew]
    exact hq

theorem spends_ask
    {q : LineCall} {next : LineAnswer q → Dialogue LineCall LineAnswer α}
    (hfits : q.Fits) (htimed : q.TimedBy bt rt)
    (h : ∀ a, Spends bt rt n (next a)) :
    Spends bt rt (q.wait + n) (.ask q next) := by
  rintro trace k hpatient a _ rfl
  have hasked : Patient bt rt (k + q.wait) (trace ++ [q]) := by
    refine ⟨forall_mem_snoc hpatient.fits hfits,
      forall_mem_snoc hpatient.timedBy htimed, ?_⟩
    rw [waits_snoc]
    exact Nat.add_le_add_right hpatient.waits_le q.wait
  rw [← Nat.add_assoc]
  exact h a _ _ hasked

theorem spends_bind
    {f : α → Dialogue LineCall LineAnswer β}
    (h : Spends bt rt m c) (hnext : ∀ a, Spends bt rt n (f a)) :
    Spends bt rt (m + n) (c >>= f) := by
  intro trace k hpatient
  rw [ends_bind, ← Nat.add_assoc]
  exact (h trace k hpatient).mono (fun a _ hmid => hnext a _ _ hmid)
    fun _ hmid => hmid.mono (by omega)

end Spending

section Frames

variable {δ : Type}
variable {crcCalc : List UInt8 → UInt16}
variable {bt rt : Int32} {n : Nat} {d : δ}

theorem byte_fits (x : UInt8) : x.toNat ≤ msgBufSize := by
  have hlt := x.toNat_lt
  rw [msgBufSize]
  omega

theorem few_fit {k : Nat} (hk : k ≤ 5) : k ≤ msgBufSize := by
  rw [msgBufSize]
  omega

theorem spends_listen
    {t : Int32} {k : Nat} {heard : List UInt8}
    {next : List UInt8 → Conduct δ} (hk : k ≤ msgBufSize)
    (ht : t = bt ∨ t = rt) (h : ∀ heard, Spends bt rt n (next heard)) :
    Spends bt rt (t.toNatClampNeg + n) (listen k t heard d next) := by
  refine spends_ask (q := .read k t) hk (Or.inr ht) fun a => ?_
  split
  · exact spends_fault
  · split
    · exact h _
    · exact spends_ret _

theorem spends_listenCheck
    {heard : List UInt8} {next : Conduct δ} (h : Spends bt rt n next) :
    Spends bt rt (bt.toNatClampNeg + n) (listenCheck crcCalc bt heard d next) := by
  refine spends_ask (q := .read 2 bt) (few_fit (by omega)) (Or.inr (Or.inl rfl))
    fun a => ?_
  split
  · exact spends_ret _
  · split
    · exact h
    · exact spends_ret _

variable {unit fc : UInt8}

theorem spends_overhearHeader
    {next : List UInt8 → Conduct δ}
    (h : ∀ heard, Spends bt rt (3 * bt.toNatClampNeg) (next heard)) :
    Spends bt rt (rt.toNatClampNeg + 4 * bt.toNatClampNeg)
      (overhearHeader crcCalc bt rt unit fc d next) := by
  have hheader : Spends bt rt (rt.toNatClampNeg + (bt.toNatClampNeg +
      3 * bt.toNatClampNeg))
      (overhearHeader crcCalc bt rt unit fc d next) := by
    refine spends_listen (few_fit (by omega)) (Or.inr rfl) fun heard => ?_
    refine spends_listen (few_fit (by omega)) (Or.inl rfl) fun heard => ?_
    split
    · exact spends_ret _
    · split
      · exact h heard
      · split
        · refine Spends.mono (m := bt.toNatClampNeg +
            (bt.toNatClampNeg + 0)) ?_ (by omega)
          refine spends_listen (few_fit (by omega)) (Or.inl rfl) fun heard => ?_
          refine spends_listenCheck ?_
          split
          · exact spends_ret _
          · exact spends_ret _
        · exact spends_ret _
  exact hheader.mono (by omega)

/-- Overhearing a response takes four times the byte timeout at most. -/
theorem spends_overhear {buf : ByteMem} (r : Request) :
    Spends bt rt (rt.toNatClampNeg + 4 * bt.toNatClampNeg)
      (overhear crcCalc bt rt unit buf d r) := by
  have hthree : bt.toNatClampNeg + (bt.toNatClampNeg +
      (bt.toNatClampNeg + 0)) = 3 * bt.toNatClampNeg := by
    omega
  have hwrite : ∀ fc first second, Spends bt rt
      (rt.toNatClampNeg + 4 * bt.toNatClampNeg)
      (overhearWrite crcCalc bt rt unit fc first second d) := by
    intro fc first second
    refine spends_overhearHeader fun heard => ?_
    refine Spends.mono (m := bt.toNatClampNeg +
      (bt.toNatClampNeg + 0)) ?_ (by omega)
    refine spends_listen (few_fit (by omega)) (Or.inl rfl) fun heard => ?_
    refine spends_listenCheck ?_
    split
    · exact spends_ret _
    · exact spends_ret _
  cases r with
  | readRegisters address quantity =>
      refine spends_overhearHeader fun heard => ?_
      rw [← hthree]
      refine spends_listen (few_fit (by omega)) (Or.inl rfl) fun heard => ?_
      split
      · exact spends_ret _
      · refine spends_listen (byte_fits _) (Or.inl rfl) fun heard => ?_
        refine spends_listenCheck ?_
        split
        · exact spends_ret _
        · exact spends_ret _
  | writeRegister address value =>
      exact hwrite 6 address value
  | writeRegisters address quantity byteCount data =>
      exact hwrite 16 address quantity
  | writeRecords data =>
      refine spends_overhearHeader fun heard => ?_
      rw [← hthree]
      refine spends_listen (few_fit (by omega)) (Or.inl rfl) fun heard => ?_
      split
      · exact spends_ret _
      · refine spends_listen (byte_fits _) (Or.inl rfl) fun heard => ?_
        dsimp only
        split
        · exact spends_fault
        · refine spends_ask (q := .read 2 bt) (few_fit (by omega))
            (Or.inr (Or.inl rfl)) fun a => ?_
          split
          · exact spends_fault
          · split
            · exact spends_ret _
            · split
              · exact spends_ret _
              · exact spends_ret _

theorem spends_deliver (reply : Reply) :
    Spends bt rt bt.toNatClampNeg
      (deliver crcCalc bt unit fc reply d) := by
  rw [deliver]
  split
  · exact spends_ret _
  · exact spends_ask (q := .write _ bt) (n := 0) trivial
      (Or.inr (Or.inl rfl)) fun ret => spends_ret _

variable {conf : NmbsConf δ} {old : ByteMem}

theorem spends_checkRequest (r : Request) :
    Spends bt rt (rt.toNatClampNeg + 5 * bt.toNatClampNeg)
      (checkRequest conf bt rt unit old r d) := by
  refine Spends.mono (m := bt.toNatClampNeg + (rt.toNatClampNeg +
    4 * bt.toNatClampNeg)) (spends_listenCheck ?_) (by omega)
  rw [meetRequest]
  dsimp only
  split
  · split
    · exact spends_fault
    · exact (spends_deliver _).mono (by omega)
  · exact spends_overhear r

/-- Hearing a request and meeting it takes so long at most. -/
theorem spends_hearRequest :
    Spends bt rt (rt.toNatClampNeg + 7 * bt.toNatClampNeg)
      (hearRequest conf bt rt unit fc old d) := by
  have hfields : ∀ (k : Nat) (heard : List UInt8)
      (r : List UInt8 → Request), k ≤ msgBufSize → Spends bt rt
      (rt.toNatClampNeg + 7 * bt.toNatClampNeg)
      (listen k bt heard d fun h =>
        checkRequest conf bt rt unit old (r h) d) := by
    intro k heard r hk
    exact (spends_listen hk (Or.inl rfl) fun h =>
      spends_checkRequest (r h)).mono (by omega)
  rw [hearRequest]
  split
  · exact hfields 4 _ (fun h => .readRegisters (wordAt h 2) (wordAt h 4))
      (few_fit (by omega))
  · split
    · exact hfields 4 _ (fun h => .writeRegister (wordAt h 2) (wordAt h 4))
        (few_fit (by omega))
    · split
      · refine Spends.mono (m := bt.toNatClampNeg + (bt.toNatClampNeg +
          (rt.toNatClampNeg + 5 * bt.toNatClampNeg))) ?_ (by omega)
        refine spends_listen (few_fit (by omega)) (Or.inl rfl) fun heard => ?_
        refine spends_listen (byte_fits _) (Or.inl rfl) fun heard => ?_
        split
        · exact spends_ret _
        · exact spends_checkRequest _
      · split
        · refine Spends.mono (m := bt.toNatClampNeg + (bt.toNatClampNeg +
            (rt.toNatClampNeg + 5 * bt.toNatClampNeg))) ?_ (by omega)
          refine spends_listen (few_fit (by omega)) (Or.inl rfl) fun heard => ?_
          split
          · exact spends_ret _
          · refine spends_listen (byte_fits _) (Or.inl rfl) fun heard => ?_
            exact spends_checkRequest _
        · refine Spends.mono (m := 0 + bt.toNatClampNeg) ?_ (by omega)
          refine spends_ask (q := .read msgBufSize 0) (Nat.le_refl _)
            (Or.inl rfl) fun a => ?_
          split
          · exact spends_deliver _
          · exact spends_ret _

theorem spends_frameServer :
    Spends bt rt (2 * rt.toNatClampNeg + 8 * bt.toNatClampNeg)
      (frameServer conf bt rt old d) := by
  refine Spends.mono (m := rt.toNatClampNeg + (bt.toNatClampNeg +
    ((rt.toNatClampNeg + 7 * bt.toNatClampNeg) + 0))) ?_ (by omega)
  refine spends_ask (q := .read 1 rt) (few_fit (by omega)) (Or.inr (Or.inr rfl))
    fun a => ?_
  split
  · exact spends_ret _
  · refine spends_listen (few_fit (by omega)) (Or.inl rfl) fun heard => ?_
    refine spends_bind spends_hearRequest fun r => ?_
    rw [dropRest]
    split
    · exact spends_ask (q := .read msgBufSize 0) (n := 0)
        (Nat.le_refl _) (Or.inl rfl) fun a => spends_ret _
    · exact spends_ret _

end Frames

section LongestWait

variable {δ : Type}
variable {conf : NmbsConf δ}
variable {bt rt : Int32} {n : Nat} {old : ByteMem} {d : δ}

instance (q : LineCall) : Nonempty (LineAnswer q) := by
  cases q with
  | read k t =>
      exact ⟨storing k [] (Nat.zero_le k)⟩
  | write bytes t =>
      exact ⟨(0 : Int)⟩

theorem waits_before
    {α : Type} {c : Dialogue LineCall LineAnswer α}
    {trace : List LineCall}
    (h : Ends asked (fun trace => waits trace ≤ n) c trace
      fun _ trace => waits trace ≤ n) :
    waits trace ≤ n := by
  refine h.asked_before (fun q => inferInstance) fun trace q hle => ?_
  rw [waits_snoc] at hle
  omega

/-- There is a unit that is neither this one nor all of them. -/
theorem exists_other (unit : UInt8) :
    ∃ other : UInt8, ¬ (other = nmbsBroadcastAddress ∨ other = unit) := by
  by_cases hone : unit = 1
  · subst hone
    exact ⟨2, by decide⟩
  · refine ⟨1, ?_⟩
    rintro (h | h)
    · exact absurd h (by decide)
    · exact hone h.symm

/-- The check of a response without data is expected behind its record. -/
theorem checkPlace_emptyRecord (buf : ByteMem) (unit : UInt8) :
    checkPlace (storeBytes buf 0 [unit, 21, 7, 6, 0, 0, 0, 0, 0, 0]) =
      10 := by
  rw [checkPlace, storeBytes_inside (Nat.zero_le 8) (by simp),
    storeBytes_inside (Nat.zero_le 9) (by simp)]
  simp only [Nat.sub_zero, List.getD_cons_succ, List.getD_cons_zero]
  decide

/-- A file request of another unit and its response take so long. -/
theorem waits_of_overhearing
    (h : Ends asked (fun trace => waits trace ≤ n)
      (frameServer conf bt rt old d) []
      fun _ trace => waits trace ≤ n) :
    2 * rt.toNatClampNeg + 8 * bt.toNatClampNeg ≤ n := by
  have hsize : msgBufSize = 260 := rfl
  have hzero : ¬ (0 : UInt8) > 251 := by
    decide
  have hseven : ¬ (7 : UInt8) > 251 := by
    decide
  obtain ⟨unit, hother⟩ := exists_other conf.addressRtu
  have hopened := ends_of_frameServer unit 21 rfl rfl h
  rw [hearRequest, if_neg (by decide), if_neg (by decide),
    if_neg (by decide), if_pos rfl] at hopened
  have hcount := ends_of_listen [0] rfl (by simp [hsize]) rfl hopened
  simp only [List.cons_append, List.nil_append, List.getD_cons_succ,
    List.getD_cons_zero, if_neg hzero] at hcount
  have hdata := ends_of_listen [] rfl (by simp [hsize]) rfl hcount
  have hmet := ends_of_listenCheck rfl hdata
  rw [meetRequest, if_neg hother, overhear, overhearRecords,
    overhearHeader] at hmet
  have hfirst := ends_of_listen [unit] rfl (by simp [hsize]) rfl hmet
  have hsecond := ends_of_listen [21] rfl (by simp [hsize]) rfl hfirst
  simp only [List.cons_append, List.nil_append, List.getD_cons_succ,
    List.getD_cons_zero, ne_eq, not_true_eq_false, if_false, if_true]
    at hsecond
  have hthird := ends_of_listen [7] rfl (by simp [hsize]) rfl hsecond
  simp only [List.cons_append, List.nil_append, List.getD_cons_succ,
    List.getD_cons_zero, if_neg hseven] at hthird
  have hfourth := ends_of_listen [6, 0, 0, 0, 0, 0, 0] rfl
    (by simp [hsize]) rfl hthird
  change Ends asked _ (if msgBufSize < checkPlace (storeBytes _ 0
    [unit, 21, 7, 6, 0, 0, 0, 0, 0, 0]) then .fault else _) _ _ at hfourth
  rw [checkPlace_emptyRecord, if_neg (by rw [hsize]; omega)] at hfourth
  have hwaits := waits_before
    ((hfourth (storing 2 [] (Nat.zero_le 2)) _ rfl).mono
      (fun r trace hrest => waits_before hrest) fun _ => id)
  simp only [waits, LineCall.wait, LineCall.timeout, List.map_append,
    List.map_cons, List.map_nil, List.sum_append, List.sum_cons,
    List.sum_nil] at hwaits
  omega

/-- The ticks that one poll may wait. -/
def longestWait (bt rt : Int32) : Nat :=
  2 * rt.toNatClampNeg + 8 * bt.toNatClampNeg

/-- A poll makes its calls with the timeouts, and they stay as they are. -/
theorem poll_patient
    (hrtu : conf.transport = .nmbsTransportRtu) {s : Server δ}
    (hbt : s.byteTimeoutMs = bt) (hrt : s.readTimeoutMs = rt)
    {trace : List LineCall} (h : Patient bt rt n trace) :
    Leads asked (Patient bt rt (n + longestWait bt rt))
      (nmbsServerPoll conf) s trace fun _ s' trace' =>
        s'.byteTimeoutMs = bt ∧ s'.readTimeoutMs = rt ∧
          Patient bt rt (n + longestWait bt rt) trace' := by
  subst hbt hrt
  refine ((poll_agrees hrtu s).ends
    (spends_frameServer trace n h)).mono ?_ fun _ => id
  rintro r trace' ⟨r', hsame, hlater⟩
  exact ⟨hsame.byteTimeout, hsame.readTimeout, hlater⟩

/--
The calls that one poll makes wait at most twice the read timeout and eight
times the byte timeout together, and no smaller bound holds for every line.
-/
theorem poll_waits_at_most_iff
    (hrtu : conf.transport = .nmbsTransportRtu) (s : Server δ) (n : Nat) :
    Leads asked (fun trace => waits trace ≤ n) (nmbsServerPoll conf) s []
        (fun _ _ trace => waits trace ≤ n) ↔
      2 * s.readTimeoutMs.toNatClampNeg +
        8 * s.byteTimeoutMs.toNatClampNeg ≤ n := by
  constructor
  · intro hpoll
    refine waits_of_overhearing
      (((poll_agrees hrtu s).ends_of_ends hpoll).mono ?_ fun _ => id)
    rintro r trace ⟨r', -, hwaits⟩
    exact hwaits
  · intro hle
    have hbound : 0 + longestWait s.byteTimeoutMs s.readTimeoutMs ≤ n := by
      rw [longestWait, Nat.zero_add]
      exact hle
    refine (poll_patient hrtu rfl rfl (patient_nil _ _)).mono ?_ ?_
    · rintro err s' trace ⟨-, -, hpatient⟩
      exact Nat.le_trans hpatient.waits_le hbound
    · intro trace hpatient
      exact Nat.le_trans hpatient.waits_le hbound

/-- With the timeouts of port.c these are 1200 ticks. -/
theorem poll_waits_at_most_1200 :
    Leads asked (fun trace => waits trace ≤ 1200)
      (nmbsServerPoll bareConf) bareServer []
      (fun _ _ trace => waits trace ≤ 1200) := by
  exact (@poll_waits_at_most_iff Unit bareConf rfl bareServer 1200).mpr
    (by decide)

end LongestWait

section Progress

variable {δ : Type}
variable {conf : NmbsConf δ}
variable {stream : ByteMem} {w : Nat}

/-- A line between two calls, on which so many bytes have arrived. -/
def Idle (stream : ByteMem) (w : Nat) (l : SerialLine) : Prop :=
  (∃ line, Carries stream l line) ∧
    (portAfter stream l.events).written = w

/-- A call within the buffer that does not wait for ever. -/
def LineCall.Modest (q : LineCall) : Prop :=
  q.Fits ∧ 0 ≤ q.timeout

/-- On the serial port such a call may return. -/
theorem serialLine_answers
    {l : SerialLine} (h : Idle stream w l) {q : LineCall}
    (hq : q.Modest) :
    ∃ a l', serialLine stream l q a l' ∧ Idle stream w l' := by
  rcases h with ⟨⟨line, hcarries⟩, hwritten⟩
  cases q with
  | read count t =>
      have hcount : count ≤ 260 := hq.1
      have hshort : count < 65536 := by
        omega
      obtain ⟨args, r, hrun⟩ :=
        @exists_readRun stream l line hcarries count hshort t hq.2 0
          hcarries.room
      rcases hrun.length_bytes with ⟨hlen, hle⟩
      refine ⟨storing count r.bytes hle, _,
        ⟨0, args, lateSteps args, r, hrun, ?_, rfl, rfl⟩,
        ⟨_, hcarries.read hrun⟩, ?_⟩
      · exact congrArg Nat.cast hlen
      · rw [written_behind, hwritten, arrivalTimes_lateSteps]
        rfl
  | write bytes t =>
      exact ⟨writeSerial (UInt16.ofNat bytes.length) .halOk, _,
        ⟨.halOk, rfl, rfl⟩,
        ⟨_, hcarries.write bytes⟩, hwritten⟩

/-- The calls of any number of polls are of that kind. -/
theorem polls_are_modest
    (hrtu : conf.transport = .nmbsTransportRtu) {s : Server δ}
    (hbt : 0 ≤ s.byteTimeoutMs) (hrt : 0 ≤ s.readTimeoutMs) (n : Nat) :
    Leads asked (fun trace => ∀ q ∈ trace, q.Modest)
      (times (nmbsServerPoll conf) n) s []
      fun _ _ trace => ∀ q ∈ trace, q.Modest := by
  have hmodest : ∀ m trace,
      Patient s.byteTimeoutMs s.readTimeoutMs m trace →
        ∀ q ∈ trace, q.Modest := by
    intro m trace hpatient q hq
    refine ⟨hpatient.fits q hq, ?_⟩
    rcases hpatient.timedBy q hq with h | h | h
    · rw [h]
      decide
    · rwa [h]
    · rwa [h]
  have hrun := @leads_times _ _ _ _ _ asked
    (fun trace => ∀ q ∈ trace, q.Modest) (nmbsServerPoll conf)
    (fun _ s' trace => s'.byteTimeoutMs = s.byteTimeoutMs ∧
      s'.readTimeoutMs = s.readTimeoutMs ∧
      ∃ m, Patient s.byteTimeoutMs s.readTimeoutMs m trace) ?_ [] s []
    ⟨rfl, rfl, 0, patient_nil _ _⟩ n
  · refine hrun.imp ?_
    rintro errs s' trace ⟨-, -, -, m, hpatient⟩
    exact hmodest m trace hpatient
  · rintro errs s' trace ⟨hsb, hsr, m, hpatient⟩
    refine (poll_patient hrtu hsb hsr hpatient).mono ?_ (hmodest _)
    rintro err s'' trace' ⟨hsb', hsr', hlater⟩
    exact ⟨hsb', hsr', _, hlater⟩

/--
Whatever has happened at the serial port, any number of further polls can come
to an end, also if no byte arrives any more.
-/
theorem polls_come_to_an_end
    (hrtu : conf.transport = .nmbsTransportRtu) {s : Server δ}
    (hbt : 0 ≤ s.byteTimeoutMs) (hrt : 0 ≤ s.readTimeoutMs) (n : Nat)
    {l : SerialLine} (h : Idle stream w l) :
    ∃ r l', Reaches (serialLine stream)
        (times (nmbsServerPoll conf) n s) l r l' ∧
      Idle stream w l' := by
  exact exists_reaches (fun q => inferInstance)
    (fun l q hidle hq => serialLine_answers hidle hq)
    (polls_are_modest hrtu hbt hrt n) h

end Progress

end Port
end ModbusRtu
