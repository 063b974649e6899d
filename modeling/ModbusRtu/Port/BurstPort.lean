import ModbusRtu.Port.BusConversation
import ModbusRtu.Port.WaitBound

/-!
# A conversation over the serial port

The bursts of a master on the UART, with read_serial and the DMA ring under the
server. A call that waits through a pause sees the next burst arrive, and every
other call sees what is left of the present one.

A call is timely if no byte of a later burst arrives before it returns, and if
the last round of its loop finds in the ring what there is to find of the
present burst. The bytes may arrive before the call or between any two of its
steps, at any ticks that allow that.

In every timely interleaving the calls return what the bursts promise. So a list
of transactions is met on the serial port as it is met on the bus, by one poll
each. And there are such interleavings if every burst is shorter than the ring.
-/

namespace ModbusRtu
namespace Port

open Kernel

section Bursts

/--
The serial port, the number of bytes that have been sent at the end of the
present burst, and the bursts to come.
-/
structure BurstPort where
  port : SerialLine
  ending : Nat
  coming : List (List UInt8)

/-- A call that waits through a pause sees the next burst. -/
def BurstPort.await (stream : ByteMem) (pause t : Int32) (p : BurstPort) :
    BurstPort :=
  match p.coming with
  | [] => p
  | burst :: coming =>
      if readBefore stream p.port.events = p.ending ∧ pause ≤ t then
        { p with ending := p.ending + burst.length, coming := coming }
      else
        p

/-- The call sees the present burst, and nothing of a later one. -/
structure Timely (stream : ByteMem) (p : BurstPort) (quiet : Nat)
    (args : ReadArgs) (during : List CallEvent) : Prop where
  notLater : (portAfter stream
    (p.port.behind quiet args during).events).written ≤ p.ending
  inTime : ∀ round ∈
      (callLog stream (p.port.waiting quiet) args during).rounds,
    args.limit ≤ round.2 →
      min (readBefore stream p.port.events + args.count.toNat) p.ending ≤
        round.1.written

/--
The platform functions of port.c, while bursts arrive in time and every frame
is transmitted.
-/
def burstLine (stream : ByteMem) (pause : Int32) :
    Environment LineCall LineAnswer BurstPort
  | p, .read count t, a, p' => ∃ quiet args during r,
      ReadRun stream p.port count t quiet args during r ∧
        Timely stream (p.await stream pause t) quiet args during ∧
        a.ret = r.received.toNat ∧ a.stored = r.bytes ∧
        p' = { p.await stream pause t with
          port := p.port.behind quiet args during }
  | p, .write bytes _, ret, p' =>
      ret = (bytes.length : Int) ∧
        p' = { p with
          port := { p.port with sent := p.port.sent ++ [bytes] } }

/-- The bytes of the present burst that have not been read. -/
def BurstPort.current (stream : ByteMem) (p : BurstPort) : List UInt8 :=
  window stream (readBefore stream p.port.events)
    (p.ending - readBefore stream p.port.events)

/-- The stream consists of the bursts, and none is being left behind. -/
structure Bursting (stream : ByteMem) (p : BurstPort) : Prop where
  idle : (portAfter stream p.port.events).call = none
  fits : UnreadFits stream p.port.events
  notLater : (portAfter stream p.port.events).written ≤ p.ending
  coming : window stream p.ending p.coming.flatten.length =
    p.coming.flatten

/-- The bursts that are still to be heard, and the frames sent. -/
def BurstPort.line (stream : ByteMem) (p : BurstPort) : BurstLine where
  current := p.current stream
  coming := p.coming
  sent := p.port.sent

end Bursts

section Timing

variable {stream : ByteMem} {p : BurstPort} {pause t : Int32}

theorem Bursting.read_le (h : Bursting stream p) :
    readBefore stream p.port.events ≤ p.ending :=
  Nat.le_trans (readerInv_readBefore h.idle h.fits).ahead h.notLater

theorem BurstPort.await_port :
    (p.await stream pause t).port = p.port := by
  rw [BurstPort.await]
  split
  · rfl
  · split
    · rfl
    · rfl

theorem wait_of_nothing {current : List UInt8} {sent : List (List UInt8)} :
    BurstLine.wait pause t ⟨current, [], sent⟩ = ⟨current, [], sent⟩ := by
  cases current with
  | nil | cons b rest =>
      rfl

theorem await_line_of_next
    {port : SerialLine} {ending : Nat} {burst : List UInt8}
    {coming : List (List UInt8)}
    (hread : readBefore stream port.events = ending) (ht : pause ≤ t)
    (hburst : window stream ending burst.length = burst) :
    BurstPort.line stream ⟨port, ending + burst.length, coming⟩ =
      (BurstPort.line stream ⟨port, ending, burst :: coming⟩).wait
        pause t := by
  have hempty : window stream (readBefore stream port.events)
      (ending - readBefore stream port.events) = [] := by
    rw [hread, Nat.sub_self]
    rfl
  have hnext : window stream (readBefore stream port.events)
      (ending + burst.length - readBefore stream port.events) = burst := by
    rw [hread, Nat.add_sub_cancel_left, hburst]
  change (⟨window stream (readBefore stream port.events)
      (ending + burst.length - readBefore stream port.events), coming,
        port.sent⟩ : BurstLine) =
    BurstLine.wait pause t ⟨window stream (readBefore stream port.events)
      (ending - readBefore stream port.events), burst :: coming, port.sent⟩
  rw [hempty, hnext]
  exact (wait_of_le ht).symm

theorem wait_line_of_not_next
    (hle : readBefore stream p.port.events ≤ p.ending)
    (hnext : ¬ (readBefore stream p.port.events = p.ending ∧ pause ≤ t)) :
    (p.line stream).wait pause t = p.line stream := by
  rw [BurstLine.wait]
  split
  · rename_i hcurrent _
    refine if_neg fun ht => hnext ⟨?_, ht⟩
    have hlen := congrArg List.length hcurrent
    rw [BurstPort.line, BurstPort.current, length_window] at hlen
    simp only [List.length_nil] at hlen
    omega
  · rfl

/-- Waiting for the next burst shows it to the line. -/
theorem Bursting.await
    (h : Bursting stream p) (pause t : Int32) :
    Bursting stream (p.await stream pause t) ∧
      (p.await stream pause t).line stream =
        (p.line stream).wait pause t := by
  obtain ⟨port, ending, coming⟩ := p
  match coming with
  | [] =>
      exact ⟨h, wait_of_nothing.symm⟩
  | burst :: coming =>
      have hstream := h.coming
      dsimp only at hstream
      rw [List.flatten_cons, List.length_append, window_add] at hstream
      obtain ⟨hburst, hcoming⟩ :=
        List.append_inj hstream (length_window _ _ _)
      by_cases hnext : readBefore stream port.events = ending ∧ pause ≤ t
      · have hawait : BurstPort.await stream pause t
            ⟨port, ending, burst :: coming⟩ =
            ⟨port, ending + burst.length, coming⟩ := if_pos hnext
        rw [hawait]
        exact ⟨⟨h.idle, h.fits,
          Nat.le_trans h.notLater (Nat.le_add_right _ _), hcoming⟩,
          await_line_of_next hnext.1 hnext.2 hburst⟩
      · have hawait : BurstPort.await stream pause t
            ⟨port, ending, burst :: coming⟩ =
            ⟨port, ending, burst :: coming⟩ := if_neg hnext
        rw [hawait]
        exact ⟨h, (wait_line_of_not_next h.read_le hnext).symm⟩

end Timing

section Calls

variable {stream : ByteMem} {p : BurstPort}
variable {count quiet : Nat} {t : Int32} {args : ReadArgs}
variable {during : List CallEvent} {r : ReadReturn}

/-- A sample sees no more than there is when the call has returned. -/
theorem sample_le_written
    {history : List SerialEvent} {a : ReadArgs}
    (hidle : (portAfter stream history).call = none)
    {sample : PollSample}
    (hmem : sample ∈ (callLog stream history a during).samples) :
    sample.written ≤
      (portAfter stream (callEvents history a during)).written := by
  have hport := (callPort_eq_watched (a := a) hidle during).1
  rw [callPort] at hport
  rw [hport]
  rcases sample_of_run hmem with hbegun | ⟨pre, post, rfl, hwritten⟩
  · cases hbegun
  · rw [hwritten, written_watched, written_watched]
    simp only [arrivalTimes, List.filterMap_append, List.length_append]
    omega

theorem readBefore_waiting (stream : ByteMem) (l : SerialLine)
    (quiet : Nat) :
    readBefore stream (l.waiting quiet) = readBefore stream l.events := by
  rw [readBefore, returnedAfter_waiting, readBefore]

/-- A timely call stops at its count or at the end of the burst. -/
theorem received_of_timely
    (hrun : ReadRun stream p.port count t quiet args during r)
    (htimely : Timely stream p quiet args during)
    (hle : readBefore stream p.port.events ≤ p.ending) :
    r.received.toNat =
      min count (p.ending - readBefore stream p.port.events) := by
  obtain ⟨pre, c, -, -, -, hlog, hat, rfl⟩ :=
    hrun.setting.replied hrun.reply
  rw [readBefore_waiting] at hlog
  have hcount := hrun.count_eq
  have hdrained := hlog.drained (by rw [hat]; rfl)
  rw [hcount] at hdrained
  change c.received.toNat = _
  by_cases hnone : (callLog stream (p.port.waiting quiet) args
      during).samples = []
  · have hlast : CallLog.lastWritten (readBefore stream p.port.events)
        (callLog stream (p.port.waiting quiet) args during) =
        readBefore stream p.port.events := by
      simp only [CallLog.lastWritten, hnone, List.getLast?_nil]
    rcases hlog.ended hat with ⟨hfull, -⟩ | ⟨early, elapsed, hchecks, -, -⟩
    · omega
    · exact absurd hnone (hlog.samples_ne_nil hat hchecks)
  · obtain ⟨rounds, sample, checks, elapsed, hrounds, hchecks, -, -,
      hlast⟩ := hlog.lastRound hat hnone
    have hround : (sample, elapsed) ∈
        (callLog stream (p.port.waiting quiet) args during).rounds := by
      rw [hrounds]
      simp
    have hmost := sample_le_written hrun.setting.idle
      (List.of_mem_zip hround).1
    have hending := htimely.notLater
    have hend : sample.written ≤ p.ending := Nat.le_trans hmost hending
    rw [hlast] at hdrained
    by_cases hshort : c.received.toNat < args.count.toNat
    · rcases hlog.late hat hshort with ⟨late, hlate, hlimit⟩
      rw [hchecks, List.getLast?_concat] at hlate
      obtain rfl : elapsed = late := Option.some.inj hlate
      have hfound := htimely.inTime _ hround hlimit
      dsimp only at hfound
      omega
    · omega

/-- A timely call returns what the burst has for it. -/
theorem bytes_of_timely
    (hrun : ReadRun stream p.port count t quiet args during r)
    (htimely : Timely stream p quiet args during)
    (hle : readBefore stream p.port.events ≤ p.ending) :
    r.bytes = (p.current stream).take count ∧
      r.received.toNat = ((p.current stream).take count).length := by
  have hreceived := received_of_timely hrun htimely hle
  obtain ⟨pre, c, -, -, ⟨-, hfilled⟩, -, -, rfl⟩ :=
    hrun.setting.replied hrun.reply
  rw [readBefore_waiting] at hfilled
  have hbytes : c.reply.bytes =
      window stream (readBefore stream p.port.events)
        c.received.toNat := by
    rw [window_shift stream]
    refine window_congr fun k _ hk => ?_
    rw [hfilled k, if_pos (by omega)]
  constructor
  · rw [hbytes, BurstPort.current, take_window]
    exact congrArg (window stream _) hreceived
  · rw [List.length_take, BurstPort.current, length_window]
    exact hreceived

end Calls

section Simulation

variable {stream : ByteMem} {p : BurstPort} {pause : Int32}

/-- Behind a timely call the rest of the burst is left. -/
theorem Bursting.read
    (h : Bursting stream p)
    {count quiet : Nat} {t : Int32} {args : ReadArgs}
    {during : List CallEvent} {r : ReadReturn}
    (hrun : ReadRun stream p.port count t quiet args during r)
    (htimely : Timely stream p quiet args during) :
    Bursting stream { p with port := p.port.behind quiet args during } ∧
      BurstPort.line stream
          { p with port := p.port.behind quiet args during } =
        { p.line stream with current := (p.current stream).drop count } := by
  obtain ⟨hreturned, hidle⟩ :=
    returnedAfter_callEvents hrun.setting.idle hrun.reply
  refine ⟨⟨hidle, hrun.setting.fits, htimely.notLater, h.coming⟩, ?_⟩
  obtain ⟨hbytes, hlen⟩ := bytes_of_timely hrun htimely h.read_le
  have hreceived := received_of_timely hrun htimely h.read_le
  rw [hlen, ← hbytes] at hreceived
  have hread : readBefore stream
      (p.port.behind quiet args during).events =
        readBefore stream p.port.events + r.bytes.length := by
    rw [SerialLine.behind, readBefore, hreturned, List.length_append,
      ← readBefore, readBefore_waiting]
  have hcurrent : BurstPort.current stream
      { p with port := p.port.behind quiet args during } =
        (p.current stream).drop count := by
    rw [BurstPort.current, BurstPort.current, drop_window]
    dsimp only
    rw [hread, hreceived]
    rcases Nat.le_total count
      (p.ending - readBefore stream p.port.events) with hle | hle
    · rw [Nat.min_eq_left hle, Nat.sub_sub]
    · have hall : p.ending - (readBefore stream p.port.events +
          (p.ending - readBefore stream p.port.events)) = 0 := by
        omega
      rw [Nat.min_eq_right hle, Nat.sub_eq_zero_of_le hle, hall]
      rfl
  rw [BurstPort.line, hcurrent]
  rfl

/-- What a timely call answers is what the bursts answer. -/
theorem answer_of_timely
    {n : Nat} {a : ReadAnswer n} {current : List UInt8}
    (hret : a.ret = (current.take n).length)
    (hstored : a.stored = current.take n) :
    a = answerOf n current := by
  obtain ⟨ret, stored, hlen, heq⟩ := a
  dsimp only at hret hstored
  subst hret hstored
  rfl

/-- In time the serial port answers as the bursts do. -/
theorem burstLine_imitates
    (c : BurstPort) (e : BurstLine) (q : LineCall) (a : LineAnswer q)
    (c' : BurstPort) (h : Bursting stream c ∧ e = c.line stream)
    (hanswer : burstLine stream pause c q a c') :
    ∃ e', answering (respond pause) e q a e' ∧
      Bursting stream c' ∧ e' = c'.line stream := by
  rcases h with ⟨hbursting, rfl⟩
  cases q with
  | read count t =>
      obtain ⟨quiet, args, during, r, hrun, htimely, hret, hstored, rfl⟩ :=
        hanswer
      rcases hbursting.await pause t with ⟨hawaiting, hline⟩
      have hport : (c.await stream pause t).port = c.port :=
        BurstPort.await_port
      rw [← hport] at hrun ⊢
      rcases hawaiting.read hrun htimely with ⟨hbehind, hrest⟩
      obtain ⟨hbytes, hlen⟩ :=
        bytes_of_timely hrun htimely hawaiting.read_le
      refine ⟨_, ?_, hbehind, hrest.symm⟩
      have hcurrent : (BurstLine.wait pause t (c.line stream)).current =
          (c.await stream pause t).current stream := by
        rw [← hline]
        rfl
      refine Prod.ext ?_ ?_
      · dsimp only [respond]
        rw [hcurrent]
        refine (answer_of_timely ?_ (hstored.trans hbytes)).symm
        rw [hret, hlen]
      · dsimp only [respond]
        rw [hcurrent, ← hline]
  | write bytes t =>
      rcases hanswer with ⟨rfl, rfl⟩
      exact ⟨_, rfl, ⟨hbursting.idle, hbursting.fits, hbursting.notLater,
        hbursting.coming⟩, rfl⟩

/-- The port when all bursts that have come are read. -/
theorem BurstPort.line_of_read
    {p : BurstPort} (h : readBefore stream p.port.events = p.ending) :
    p.line stream = ⟨[], p.coming, p.port.sent⟩ := by
  rw [BurstPort.line, BurstPort.current, h, Nat.sub_self]
  rfl

theorem Bursting.read_of_current
    {p : BurstPort} (h : Bursting stream p)
    (hcurrent : (p.line stream).current = []) :
    readBefore stream p.port.events = p.ending := by
  have hlen : p.ending - readBefore stream p.port.events = 0 := by
    have hnone := congrArg List.length hcurrent
    rwa [BurstPort.line, BurstPort.current, length_window] at hnone
  have hle := h.read_le
  omega

/-- What a program leads to on the bus it leads to on the serial port. -/
theorem leads_on_port
    {σ : Type} {α : Type} {prog : Program σ LineCall LineAnswer α} {s : σ}
    {wrong : Prop} {p : BurstPort}
    {post : α → σ → BurstLine → Prop} (hbursting : Bursting stream p)
    (h : Leads (answering (respond pause)) (fun _ => wrong) prog s
      (p.line stream) post) :
    Leads (burstLine stream pause) (fun _ => wrong) prog s p
      fun a s' p' => Bursting stream p' ∧ post a s' (p'.line stream) := by
  refine (Ends.imitated (@burstLine_imitates stream pause)
    (fun _ _ _ => id) ⟨hbursting, rfl⟩ h).mono ?_ fun _ => id
  rintro ⟨a, s'⟩ p' ⟨line, ⟨hend, rfl⟩, hpost⟩
  exact ⟨hend, hpost⟩

end Simulation

section Existence

variable {stream : ByteMem} {p : BurstPort} {pause : Int32}

/-- What is left of the present burst and all later ones fit in the ring. -/
structure ShortBursts (stream : ByteMem) (p : BurstPort) : Prop where
  bursting : Bursting stream p
  present : p.ending < readBefore stream p.port.events + uart2RxDmaBufSize
  later : ∀ burst ∈ p.coming, burst.length < uart2RxDmaBufSize

theorem Bursting.carries (h : Bursting stream p) :
    Carries stream p.port
      ⟨returnedAfter stream p.port.events, p.port.sent⟩ :=
  ⟨h.idle, h.fits, rfl, rfl⟩

theorem ShortBursts.await
    (h : ShortBursts stream p) (pause t : Int32) :
    ShortBursts stream (p.await stream pause t) := by
  refine ⟨(h.bursting.await pause t).1, ?_, ?_⟩
  · obtain ⟨port, ending, coming⟩ := p
    match coming with
    | [] =>
        exact h.present
    | burst :: coming =>
        rw [BurstPort.await]
        dsimp only
        split
        · rename_i hnext
          have hshort := h.later burst List.mem_cons_self
          dsimp only
          omega
        · exact h.present
  · intro burst hburst
    refine h.later burst ?_
    rw [BurstPort.await] at hburst
    split at hburst
    · exact hburst
    · rename_i first coming hcoming
      split at hburst
      · rw [hcoming]
        exact List.mem_cons_of_mem first hburst
      · exact hburst

/-- The samples of a call during which nothing arrives see the same. -/
theorem written_of_quiet
    {history : List SerialEvent} {args : ReadArgs}
    {during : List CallEvent} {sample : PollSample}
    (hquiet : arrivalTimes during = [])
    (hmem : sample ∈ (callLog stream history args during).samples) :
    sample.written = (portAfter stream history).written := by
  rcases sample_of_run hmem with hbegun | ⟨pre, post, rfl, hwritten⟩
  · cases hbegun
  · rw [arrivalTimes, List.filterMap_append, List.append_eq_nil_iff]
      at hquiet
    rw [hwritten, written_watched, arrivalTimes, hquiet.1]
    rfl

/-- There is a timely call for each read that the server may make. -/
theorem exists_timely
    (h : ShortBursts stream p) {count : Nat} (hcount : count < 65536)
    {t : Int32} (ht : 0 ≤ t) :
    ∃ quiet args r,
      ReadRun stream p.port count t quiet args (lateSteps args) r ∧
        Timely stream p quiet args (lateSteps args) := by
  have hlater := h.bursting.notLater
  have hpresent := h.present
  obtain ⟨quiet, hquiet⟩ := Nat.exists_eq_add_of_le hlater
  obtain ⟨args, r, hrun⟩ := @exists_readRun stream p.port _
    h.bursting.carries count hcount t ht quiet (by omega)
  refine ⟨quiet, args, r, hrun, ?_, ?_⟩
  · rw [written_behind, arrivalTimes_lateSteps]
    exact Nat.le_of_eq hquiet.symm
  · intro round hround hlate
    have hseen := written_of_quiet (arrivalTimes_lateSteps args)
      (List.of_mem_zip hround).1
    rw [hseen, (h.bursting.carries.waiting quiet).2, ← hquiet]
    exact Nat.min_le_right _ _

theorem burstLine_answers
    (h : ShortBursts stream p) {q : LineCall} (hq : q.Modest) :
    ∃ a p', burstLine stream pause p q a p' ∧ ShortBursts stream p' := by
  cases q with
  | read count t =>
      have hcount : count ≤ 260 := hq.1
      have hshort : count < 65536 := by
        omega
      have hawait := h.await pause t
      have hport : (p.await stream pause t).port = p.port :=
        BurstPort.await_port
      obtain ⟨quiet, args, r, hrun, htimely⟩ :=
        exists_timely hawait hshort hq.2
      rcases hrun.length_bytes with ⟨hlen, hle⟩
      rcases hawait.bursting.read hrun htimely with ⟨hbehind, -⟩
      have hreturned := (returnedAfter_callEvents hrun.setting.idle
        hrun.reply).1
      rw [hport] at hrun hbehind hreturned
      have hret : (storing count r.bytes hle).ret = r.received.toNat :=
        congrArg Nat.cast hlen
      have hanswer : burstLine stream pause p (.read count t)
          (storing count r.bytes hle)
          { p.await stream pause t with
            port := p.port.behind quiet args (lateSteps args) } :=
        ⟨quiet, args, lateSteps args, r, hrun, htimely, hret, rfl, rfl⟩
      refine ⟨_, _, hanswer, hbehind, ?_, hawait.later⟩
      · have hpresent := hawait.present
        rw [hport] at hpresent
        dsimp only
        rw [SerialLine.behind, readBefore, hreturned, List.length_append,
          ← readBefore, readBefore_waiting]
        omega
  | write bytes t =>
      exact ⟨(bytes.length : Int), _, ⟨rfl, rfl⟩,
        ⟨h.bursting.idle, h.bursting.fits, h.bursting.notLater,
          h.bursting.coming⟩, h.present, h.later⟩

/-- A stream that begins with given bytes. -/
def streamOf (bytes : List UInt8) : ByteMem :=
  fun k => bytes.getD k 0

theorem window_streamOf (bytes : List UInt8) :
    window (streamOf bytes) 0 bytes.length = bytes := by
  refine List.ext_getElem (length_window _ _ _) fun k hk hk' => ?_
  simp [window, streamOf, hk']

/-- The serial port after reset, with bursts to come. -/
def BurstPort.initial (bursts : List (List UInt8)) : BurstPort where
  port := SerialLine.initial
  ending := 0
  coming := bursts

theorem shortBursts_initial
    {bursts : List (List UInt8)}
    (hshort : ∀ burst ∈ bursts, burst.length < uart2RxDmaBufSize) :
    ShortBursts (streamOf bursts.flatten) (BurstPort.initial bursts) where
  bursting :=
    ⟨rfl, (carries_initial _).fits, Nat.le_refl 0, window_streamOf _⟩
  present := Nat.lt_add_left _ (Nat.zero_lt_succ 255)
  later := hshort

end Existence

section Conversations

variable {δ : Type}
variable {conf : NmbsConf δ}
variable {stream : ByteMem} {pause : Int32}

/--
A list of transactions is met on the serial port: in every timely interleaving
of the bytes, the DMA and the reads, as many polls return the status of each
transaction, send the replies in their order, and leave nothing unread. The
server goes wrong exactly if the service of a request is undefined.
-/
theorem conversation_on_serial_port
    (hrtu : conf.transport = .nmbsTransportRtu) (s : Server δ)
    (hpause : 0 < pause) (hbt : s.byteTimeoutMs < pause)
    (hrt : pause ≤ s.readTimeoutMs)
    (ts : List Transaction) (hvalid : ∀ t ∈ ts, t.Valid conf)
    (p : BurstPort) (hbursting : Bursting stream p)
    (hread : readBefore stream p.port.events = p.ending)
    (hcoming : p.coming =
      ts.flatMap (Transaction.bursts conf.crcCalc)) :
    Leads (burstLine stream pause)
      (fun _ => converse conf ts s.device = none)
      (times (nmbsServerPoll conf) ts.length) s p
      fun errs s' p' =>
        errs = ts.map Transaction.status ∧
          s'.byteTimeoutMs = s.byteTimeoutMs ∧
          s'.readTimeoutMs = s.readTimeoutMs ∧
          readBefore stream p'.port.events = p'.ending ∧ p'.coming = [] ∧
          ∃ frames, converse conf ts s.device = some (frames, s'.device) ∧
            p'.port.sent = p.port.sent ++ frames := by
  have hconversation :=
    conversation hrtu s hpause hbt hrt ts hvalid p.port.sent
  rw [← hcoming, ← BurstPort.line_of_read hread] at hconversation
  refine (leads_on_port hbursting hconversation).imp ?_
  rintro errs s' p' ⟨hend, rfl, hbt', hrt', hcurrent, hdone, frames,
    hconverse, hsent⟩
  exact ⟨rfl, hbt', hrt', hend.read_of_current hcurrent, hdone, frames,
    hconverse, hsent⟩

/-- There is such an interleaving if every burst is shorter than the ring. -/
theorem conversation_happens
    (hrtu : conf.transport = .nmbsTransportRtu) (s : Server δ)
    (hbt : 0 ≤ s.byteTimeoutMs) (hrt : 0 ≤ s.readTimeoutMs) (n : Nat)
    {p : BurstPort} (hshort : ShortBursts stream p) :
    ∃ r p', Reaches (burstLine stream pause)
      (times (nmbsServerPoll conf) n s) p r p' := by
  obtain ⟨r, p', hreach, -⟩ := exists_reaches (fun q => inferInstance)
    (fun p q hp hq => burstLine_answers hp hq)
    (polls_are_modest hrtu hbt hrt n) hshort
  exact ⟨r, p', hreach⟩

/-- A request that breaks off, then a read that no callback serves. -/
theorem conversation_on_serial_port_bare :
    Leads
      (burstLine (streamOf (([Transaction.cut 1 (.readRegisters 0 2) 3,
        .ours 1 (.readRegisters 0 2)].flatMap
          (Transaction.bursts nmbsCrcCalc)).flatten)) 150)
      (fun _ => False) (times (nmbsServerPoll bareConf) 2) bareServer
      (BurstPort.initial ([Transaction.cut 1 (.readRegisters 0 2) 3,
        .ours 1 (.readRegisters 0 2)].flatMap
          (Transaction.bursts nmbsCrcCalc)))
      fun errs _ p' => errs = [.errorTimeout, .errorNone] ∧
        p'.port.sent = [withCheck nmbsCrcCalc [1, 0x83, 1]] := by
  have hvalid : ∀ t ∈ [Transaction.cut 1 (.readRegisters 0 2) 3,
      .ours 1 (.readRegisters 0 2)], t.Valid bareConf := by
    intro t ht
    rcases ht with _ | ⟨_, _ | ⟨_, ht⟩⟩
    · refine ⟨trivial, ?_⟩
      rw [requestFrame, withCheck, List.length_append, length_wireBytes]
      decide
    · exact ⟨Or.inr rfl, trivial, trivial⟩
    · cases ht
  have hshort : ∀ burst ∈ [Transaction.cut 1 (.readRegisters 0 2) 3,
      .ours 1 (.readRegisters 0 2)].flatMap
        (Transaction.bursts nmbsCrcCalc),
      burst.length < uart2RxDmaBufSize := by
    intro burst hburst
    rcases hburst with _ | ⟨_, _ | ⟨_, hburst⟩⟩
    · exact Nat.lt_of_le_of_lt (List.length_take_le _ _) (by decide)
    · simp [requestFrame, withCheck, Request.body, Request.fields,
        uart2RxDmaBufSize]
    · cases hburst
  have hconverse : converse bareConf [.cut 1 (.readRegisters 0 2) 3,
      .ours 1 (.readRegisters 0 2)] () =
        some ([withCheck nmbsCrcCalc [1, 0x83, 1]], ()) := rfl
  have hconversation := @conversation_on_serial_port Unit bareConf _ 150
    rfl bareServer (by decide) (by decide) (by decide)
    [.cut 1 (.readRegisters 0 2) 3, .ours 1 (.readRegisters 0 2)] hvalid _
    (shortBursts_initial hshort).bursting rfl rfl
  refine hconversation.mono ?_ fun _ hnone => ?_
  · rintro errs s' p' ⟨rfl, -, -, -, -, frames, hframes, hsent⟩
    have hsame := hconverse.symm.trans hframes
    obtain ⟨rfl, -⟩ := Prod.mk.inj (Option.some.inj hsame)
    exact ⟨rfl, hsent⟩
  · cases hconverse.symm.trans hnone

end Conversations

end Port
end ModbusRtu
