import ModbusRtu.Port.BusTransfer

/-!
# Several servers at one bus

The servers at a bus have different addresses. In a turn the master sends a
frame, and each server polls once. A server hears the frame of the master and
what the other servers send, whatever that is: the servers are coupled by what
they say, and nothing is assumed about who speaks.

A server to whom a request is not addressed sends nothing, whatever it hears
behind the request. So at most one server speaks in a turn, and the others hear
its reply as the response or the exception they expect. No server is disturbed:
each one ends with the device that the requests to it and to all units make,
as if it were alone.

The master sends requests to servers that are there, and waits for the reply. A
file request has one record, since a server that overhears a response takes it
to have one. Frames with a wrong check and frames that break off are nobody's.
-/

namespace ModbusRtu
namespace Port

open Kernel

section Buses

/-- The configurations of the servers at a bus. -/
structure Bus (n : Nat) (δ : Type) where
  conf : Fin n → NmbsConf δ
  crcCalc : List UInt8 → UInt16
  transport_eq : ∀ i, (conf i).transport = .nmbsTransportRtu
  crcCalc_eq : ∀ i, (conf i).crcCalc = crcCalc
  address_ne : ∀ i, (conf i).addressRtu ≠ nmbsBroadcastAddress
  address_inj : ∀ i j, (conf i).addressRtu = (conf j).addressRtu → i = j

/-- A server with its end of the line. -/
structure Station (δ : Type) where
  server : Server δ
  line : BurstLine

variable {n : Nat} {δ : Type}

/-- Nothing is left on the line, and the timeouts fit the pauses. -/
structure Station.Listening (pause : Int32) (x : Station δ) : Prop where
  current : x.line.current = []
  coming : x.line.coming = []
  byteTimeout : x.server.byteTimeoutMs < pause
  readTimeout : pause ≤ x.server.readTimeoutMs

/-- The line of a station with bursts to come. -/
def Station.hears (x : Station δ) (bursts : List (List UInt8)) :
    BurstLine :=
  { x.line with coming := x.line.coming ++ bursts }

theorem Station.Listening.hears_eq
    {pause : Int32} {x : Station δ} (h : x.Listening pause)
    (bursts : List (List UInt8)) :
    x.hears bursts = ⟨[], bursts, x.line.sent⟩ := by
  rw [Station.hears, h.current, h.coming, List.nil_append]

/-- The devices of the stations. -/
def devices (x : Fin n → Station δ) (i : Fin n) : δ :=
  (x i).server.device

/-- What a station hears: the frame, then what the other stations say. -/
def heardBy (frame : List UInt8) (said : Fin n → List (List UInt8))
    (i : Fin n) : List (List UInt8) :=
  frame :: (List.finRange n).flatMap fun j => if j = i then [] else said j

/-- One poll of each station for a frame of the master. -/
structure Bus.Turn (B : Bus n δ) (pause : Int32) (frame : List UInt8)
    (x : Fin n → Station δ) (said : Fin n → List (List UInt8))
    (x' : Fin n → Station δ) : Prop where
  polls : ∀ i, ∃ err,
    runDialogue (respond pause) (nmbsServerPoll (B.conf i) (x i).server)
        ((x i).hears (heardBy frame said i)) =
      (some (err, (x' i).server), (x' i).line)
  spoken : ∀ i, (x' i).line.sent = (x i).line.sent ++ said i

/-- What a master sends. -/
inductive MasterFrame
  | request (unit : UInt8) (r : Request)
  | damaged (unit : UInt8) (r : Request) (x y : UInt8)
  | cut (unit : UInt8) (r : Request) (n : Nat)

/-- The bytes of a frame. -/
def MasterFrame.bytes (crcCalc : List UInt8 → UInt16) :
    MasterFrame → List UInt8
  | .request unit r => requestFrame crcCalc (unit, r)
  | .damaged unit r x y => r.body unit ++ [x, y]
  | .cut unit r n => (requestFrame crcCalc (unit, r)).take n

/-- The request of an intact frame, with its unit. -/
def MasterFrame.asked : MasterFrame → Option (UInt8 × Request)
  | .request unit r => some (unit, r)
  | _ => none

/-- Which frames a master sends. -/
def MasterFrame.Valid (B : Bus n δ) : MasterFrame → Prop
  | .request unit r =>
      (unit = nmbsBroadcastAddress ∨
        ∃ i, unit = (B.conf i).addressRtu) ∧
        r.WellFormed ∧ r.Single
  | .damaged unit r x y =>
      r.WellFormed ∧ [x, y] ≠ wireBytes (B.crcCalc (r.body unit))
  | .cut unit r n =>
      r.WellFormed ∧ n < (requestFrame B.crcCalc (unit, r)).length

/-- Turns one after the other, with what is said in each of them. -/
inductive Bus.Run (B : Bus n δ) (pause : Int32) :
    List MasterFrame → (Fin n → Station δ) →
      List (Fin n → List (List UInt8)) → (Fin n → Station δ) → Prop
  | nil (x : Fin n → Station δ) :
      Run B pause [] x [] x
  | cons {m : MasterFrame} {ms : List MasterFrame}
      {x x' x'' : Fin n → Station δ} {said : Fin n → List (List UInt8)}
      {log : List (Fin n → List (List UInt8))}
      (hturn : B.Turn pause (m.bytes B.crcCalc) x said x')
      (hrun : Run B pause ms x' log x'') :
      Run B pause (m :: ms) x (said :: log) x''

end Buses

section Services

variable {n : Nat} {δ : Type}
variable (B : Bus n δ)

/-- A server takes the requests to its unit and to all units. -/
def NmbsConf.Meets (conf : NmbsConf δ) (p : UInt8 × Request) : Prop :=
  p.1 = nmbsBroadcastAddress ∨ p.1 = conf.addressRtu

instance (conf : NmbsConf δ) (p : UInt8 × Request) :
    Decidable (conf.Meets p) :=
  inferInstanceAs (Decidable (_ ∨ _))

/-- The device behind a request, as it was if the service is undefined. -/
def NmbsConf.take (conf : NmbsConf δ) (d : δ) (p : UInt8 × Request) : δ :=
  (serve conf.callbacks p.1 [] p.2 d).elim d Prod.snd

/-- The frames that a server answers a request with. -/
def NmbsConf.answer (conf : NmbsConf δ) (d : δ) (p : UInt8 × Request) :
    List (List UInt8) :=
  (serve conf.callbacks p.1 [] p.2 d).elim []
    fun q => answerFrames conf.crcCalc p.1 p.2.fc q.1

/-- What the stations say to a frame, and the devices behind it. -/
def Bus.meet (ds : Fin n → δ) (m : MasterFrame) :
    (Fin n → List (List UInt8)) × (Fin n → δ) :=
  match m.asked with
  | none => (fun _ => [], ds)
  | some p =>
      (fun i => if (B.conf i).Meets p then (B.conf i).answer (ds i) p
        else [],
      fun i => if (B.conf i).Meets p then (B.conf i).take (ds i) p
        else ds i)

end Services

section Replies

variable {δ : Type}
variable {cbs : NmbsCallbacks δ}
variable {unit : UInt8} {d d' : δ}

/-- A server that overhears a reply to a request takes it for one. -/
def Reply.Fits (r : Request) : Reply → Prop
  | .response fields => r.AnsweredBy fields
  | .exception code => 1 ≤ code.byte ∧ code.byte ≤ 4

theorem NmbsError.byte_of_isException
    {code : NmbsError} (h : code.isException = true) :
    1 ≤ code.byte ∧ code.byte ≤ 4 := by
  revert h
  cases code <;> decide

theorem callbackException_isException (err : NmbsError) :
    (callbackException err).isException = true := by
  rw [callbackException]
  split
  · assumption
  · rfl

/-- Every exception fits every request. -/
theorem exception_fits
    (r : Request) {code : NmbsError} (h : code.isException = true) :
    (Reply.exception code).Fits r :=
  NmbsError.byte_of_isException h

theorem serveRead_fits (address quantity : UInt16) :
    (serveRead cbs unit address quantity d).1.Fits
      (.readRegisters address quantity) := by
  rw [serveRead]
  split
  · exact exception_fits _ rfl
  · rename_i hquantity
    split
    · exact exception_fits _ rfl
    · split
      · exact exception_fits _ rfl
      · rename_i cb hcb
        dsimp only
        split
        · exact exception_fits _ (callbackException_isException _)
        · have hmost : quantity.toNat ≤ 125 :=
            Nat.le_of_not_lt fun h => hquantity (Or.inr h)
          have hlen : (wireString ((List.range quantity.toNat).map
              (cb d address quantity (fun _ => 0) unit).1.2)).length =
              quantity.toNat * 2 := by
            rw [length_wireString, List.length_map, List.length_range,
              Nat.mul_comm]
          exact ⟨_, by rw [hlen], hlen, by omega⟩

theorem serveWrite_fits (address value : UInt16) :
    (serveWrite cbs unit address value d).1.Fits
      (.writeRegister address value) := by
  rw [serveWrite]
  split
  · exact exception_fits _ rfl
  · dsimp only
    split
    · exact exception_fits _ (callbackException_isException _)
    · rfl

theorem serveWrites_fits
    (address quantity : UInt16) (byteCount : UInt8) (data : List UInt8) :
    (serveWrites cbs unit address quantity byteCount data d).1.Fits
      (.writeRegisters address quantity byteCount data) := by
  rw [serveWrites]
  split
  · exact exception_fits _ rfl
  · split
    · exact exception_fits _ rfl
    · split
      · exact exception_fits _ rfl
      · split
        · exact exception_fits _ rfl
        · dsimp only
          split
          · exact exception_fits _ (callbackException_isException _)
          · rfl

/-- A request with at most one record is served, with a reply that fits. -/
theorem serve_fits
    (cbs : NmbsCallbacks δ) (unit : UInt8) {r : Request} (hr : r.Single)
    (d : δ) :
    ∃ reply d', serve cbs unit [] r d = some (reply, d') ∧ reply.Fits r := by
  cases r with
  | readRegisters address quantity =>
      exact ⟨_, _, rfl, serveRead_fits address quantity⟩
  | writeRegister address value =>
      exact ⟨_, _, rfl, serveWrite_fits address value⟩
  | writeRegisters address quantity byteCount data =>
      exact ⟨_, _, rfl, serveWrites_fits address quantity byteCount data⟩
  | writeRecords data =>
      rcases hr with ⟨e, he, rfl⟩
      refine ⟨_, _, serveRecords_singleton he [], ?_⟩
      split
      · exact exception_fits _ rfl
      · dsimp only
        split
        · exact exception_fits _ (callbackException_isException _)
        · exact ⟨e, he.registers, rfl⟩

end Replies

section Silence

variable {δ : Type}
variable {conf : NmbsConf δ}
variable {pause bt rt : Int32}
variable {unit : UInt8} {buf : ByteMem} {d : δ}

/-- A server that overhears a response sends nothing. -/
theorem ends_overhear_silent
    (crcCalc : List UInt8 → UInt16) (r : Request) (line : Line) :
    Ends anyLine (fun _ => True) (overhear crcCalc bt rt unit buf d r) line
      fun _ line' => line'.sent = line.sent := by
  have hquiet : Overheard d line
      (fun (_ : NmbsError × δ) line' => line'.sent = line.sent) :=
    fun _ _ => rfl
  cases r with
  | readRegisters address quantity =>
      exact ends_overhearRead hquiet
  | writeRegister address value =>
      exact ends_overhearWrite hquiet
  | writeRegisters address quantity byteCount data =>
      exact ends_overhearWrite hquiet
  | writeRecords data =>
      exact ends_overhearRecords hquiet fun _ _ _ => trivial

theorem wait_sent (line : BurstLine) (t : Int32) :
    (line.wait pause t).sent = line.sent := by
  rw [BurstLine.wait]
  split
  · split
    · rfl
    · rfl
  · rfl

/-- What is sent on a line of bursts can be sent on any line. -/
theorem burst_said
    {c c' : BurstLine} {line : Line} {q : LineCall} {a : LineAnswer q}
    (hrel : c.sent = line.sent)
    (hanswer : answering (respond pause) c q a c') :
    ∃ line', anyLine line q a line' ∧ c'.sent = line'.sent := by
  cases q with
  | read count t =>
      obtain ⟨rfl, rfl⟩ := Prod.mk.inj hanswer
      refine ⟨_, rfl, ?_⟩
      rw [Line.hear]
      rw [← hrel]
      exact wait_sent c t
  | write bytes t =>
      obtain ⟨rfl, rfl⟩ := Prod.mk.inj hanswer
      refine ⟨_, rfl, ?_⟩
      rw [Line.say, hrel]

end Silence

section Hearing

variable {n : Nat} {δ : Type}
variable {B : Bus n δ}
variable {unit : UInt8} {r : Request}

/-- Where one station speaks at most, its frames are what is heard. -/
theorem flatMap_of_one
    {α β : Type} {xs : List α} {f : α → List β} {a : α}
    (hnodup : xs.Nodup) (ha : a ∈ xs)
    (hf : ∀ b ∈ xs, b ≠ a → f b = []) :
    xs.flatMap f = f a := by
  induction xs with
  | nil =>
      exact (List.not_mem_nil ha).elim
  | cons b xs ih =>
      obtain ⟨hb, hrest⟩ := List.nodup_cons.mp hnodup
      rw [List.flatMap_cons]
      rcases List.mem_cons.mp ha with rfl | ha
      · have hnone : xs.flatMap f = [] := by
          refine List.flatMap_eq_nil_iff.mpr fun c hc => ?_
          refine hf c (List.mem_cons_of_mem _ hc) ?_
          rintro rfl
          exact hb hc
        rw [hnone, List.append_nil]
      · have hother : b ≠ a := by
          rintro rfl
          exact hb ha
        rw [hf b (List.mem_cons_self ..) hother, List.nil_append]
        exact ih hrest ha fun c hc => hf c (List.mem_cons_of_mem _ hc)

/-- If the other stations are silent, only the frame of the master is heard. -/
theorem heardBy_silent
    {frame : List UInt8} {said : Fin n → List (List UInt8)} {i : Fin n}
    (hsaid : ∀ j, j ≠ i → said j = []) :
    heardBy frame said i = [frame] := by
  have hnone : ((List.finRange n).flatMap fun j =>
      if j = i then [] else said j) = [] := by
    refine List.flatMap_eq_nil_iff.mpr fun j _ => ?_
    split
    · rfl
    · exact hsaid j ‹_›
  rw [heardBy, hnone]

/-- If one other station speaks, it is heard behind the master. -/
theorem heardBy_one
    {frame : List UInt8} {said : Fin n → List (List UInt8)} {i j : Fin n}
    (hne : j ≠ i) (hsaid : ∀ k, k ≠ j → said k = []) :
    heardBy frame said i = frame :: said j := by
  have hone := @flatMap_of_one _ _ (List.finRange n)
    (fun k => if k = i then [] else said k) j (List.nodup_finRange n)
    (List.mem_finRange j) ?_
  · rw [heardBy, hone, if_neg hne]
  · intro k _ hk
    split
    · rfl
    · exact hsaid k hk

/-- A request to one unit is met by one station. -/
theorem Bus.eq_of_meets
    {i j : Fin n} (hi : unit = (B.conf i).addressRtu)
    (hj : (B.conf j).Meets (unit, r)) :
    j = i := by
  rcases hj with hj | hj
  · exact absurd (hi.symm.trans hj) (B.address_ne i)
  · exact B.address_inj j i (hj.symm.trans hi)

/-- Nobody answers a request to all units. -/
theorem NmbsConf.answer_broadcast
    (conf : NmbsConf δ) (d : δ) (r : Request) :
    conf.answer d (nmbsBroadcastAddress, r) = [] := by
  rw [NmbsConf.answer]
  cases serve conf.callbacks nmbsBroadcastAddress [] r d with
  | none =>
      rfl
  | some p =>
      rw [Option.elim, answerFrames, if_pos rfl]

/-- A station that meets a request is the only one to speak. -/
theorem Bus.silent_of_meets
    {i j : Fin n} (hi : (B.conf i).Meets (unit, r)) (hne : j ≠ i)
    (ds : Fin n → δ) :
    (B.meet ds (.request unit r)).1 j = [] := by
  rw [Bus.meet]
  dsimp only [MasterFrame.asked]
  split
  · rename_i hj
    rcases hi with hi | hi
    · obtain rfl : unit = nmbsBroadcastAddress := hi
      exact NmbsConf.answer_broadcast _ _ _
    · exact absurd (B.eq_of_meets hi hj) hne
  · rfl

end Hearing

section Turns

variable {n : Nat} {δ : Type}
variable {B : Bus n δ}
variable {pause : Int32}
variable {x x' : Fin n → Station δ}
variable {m : MasterFrame} {said : Fin n → List (List UInt8)}

/-- The server of a request to another unit sends nothing. -/
theorem poll_silent
    {conf : NmbsConf δ} (hrtu : conf.transport = .nmbsTransportRtu)
    {s : Server δ} (hbt : s.byteTimeoutMs < pause)
    (hrt : pause ≤ s.readTimeoutMs)
    {unit : UInt8} {r : Request} (hr : r.WellFormed)
    (hother : ¬ conf.Meets (unit, r))
    (coming sent : List (List UInt8)) :
    Leads (answering (respond pause)) (fun _ => True)
      (nmbsServerPoll conf) s
      ⟨[], requestFrame conf.crcCalc (unit, r) :: coming, sent⟩
      fun _ _ line => line.sent = sent := by
  have hframes : Ends (answering (respond pause)) (fun _ => True)
      (frameServer conf s.byteTimeoutMs s.readTimeoutMs s.msg.buf s.device)
      ⟨[], requestFrame conf.crcCalc (unit, r) :: coming, sent⟩
      fun _ line => line.sent = sent := by
    refine (ends_frame hbt hrt hr).mpr ?_
    have hnot : ¬ (unit = nmbsBroadcastAddress ∨ unit = conf.addressRtu) :=
      hother
    rw [meetRequest, if_neg hnot]
    have hsilent := @ends_overhear_silent δ s.byteTimeoutMs s.readTimeoutMs
      unit (storeBytes s.msg.buf 0 (withCheck conf.crcCalc (r.body unit)))
      s.device conf.crcCalc r ⟨[], sent⟩
    refine (Ends.imitated (R := fun c line => c.sent = line.sent)
      (fun _ _ _ _ _ => burst_said) (fun _ _ _ => id) rfl
      hsilent).mono ?_ fun _ => id
    rintro p line ⟨line', hrel, hsent⟩
    rw [dropRest]
    split
    · exact ends_answering_ask.mpr
        ((wait_sent line 0).trans (hrel.trans hsent))
    · exact hrel.trans hsent
  refine ((poll_agrees hrtu s).ends hframes).mono ?_ fun _ => id
  rintro p line ⟨-, -, hsent⟩
  exact hsent

/-- The poll of a listening station for a transaction. -/
theorem poll_listening
    {conf : NmbsConf δ} (hrtu : conf.transport = .nmbsTransportRtu)
    (hpause : 0 < pause) {y : Station δ} (hy : y.Listening pause)
    {t : Transaction} (ht : t.Valid conf)
    {frames : List (List UInt8)} {d' : δ}
    (heffect : t.effect conf y.server.device = some (frames, d'))
    (coming : List (List UInt8)) :
    ∃ err s', runDialogue (respond pause) (nmbsServerPoll conf y.server)
          (y.hears (t.bursts conf.crcCalc ++ coming)) =
        (some (err, s'), ⟨[], coming, y.line.sent ++ frames⟩) ∧
      s'.device = d' ∧ s'.byteTimeoutMs = y.server.byteTimeoutMs ∧
      s'.readTimeoutMs = y.server.readTimeoutMs := by
  have hpoll := poll_transaction hrtu hpause hy.byteTimeout hy.readTimeout
    ht coming y.line.sent
  obtain ⟨⟨err, s'⟩, ⟨current, coming', sent⟩, hrun, hbt, hrt, -, rfl, rfl,
    frames', heffect', rfl⟩ :=
    run_of_ends (hpoll.mono (fun _ _ _ => id) fun _ hnone => by
      rw [heffect] at hnone
      cases hnone)
  rw [heffect] at heffect'
  obtain ⟨rfl, rfl⟩ := Prod.mk.inj (Option.some.inj heffect')
  refine ⟨err, s', ?_, rfl, hbt, hrt⟩
  rw [hy.hears_eq]
  exact hrun

/-- The service of a request by a station that it is addressed to. -/
theorem effect_of_meets
    {conf : NmbsConf δ} {unit : UInt8} {r : Request} (hr : r.Single)
    (d : δ) :
    (Transaction.ours unit r).effect conf d =
      some (conf.answer d (unit, r), conf.take d (unit, r)) := by
  obtain ⟨reply, d', hserve, -⟩ := serve_fits conf.callbacks unit hr d
  rw [Transaction.effect, NmbsConf.answer, NmbsConf.take, hserve]
  rfl

/-- A frame is a transaction, or a request to another unit. -/
theorem MasterFrame.Valid.transaction
    (hm : m.Valid B) (ds : Fin n → δ) (i : Fin n) :
    (∃ t : Transaction, t.Valid (B.conf i) ∧
      t.bursts B.crcCalc = [m.bytes B.crcCalc] ∧
      t.effect (B.conf i) (ds i) =
        some ((B.meet ds m).1 i, (B.meet ds m).2 i) ∧
      ∀ j, j ≠ i → (B.meet ds m).1 j = []) ∨
    ∃ unit r, m = .request unit r ∧ r.WellFormed ∧
      ¬ (B.conf i).Meets (unit, r) ∧
      (B.meet ds m).1 i = [] ∧ (B.meet ds m).2 i = ds i := by
  cases m with
  | request unit r =>
      rcases hm with ⟨-, hr, hsingle⟩
      by_cases hmeets : (B.conf i).Meets (unit, r)
      · refine Or.inl ⟨.ours unit r, ⟨hmeets, hr, hsingle.bounded⟩, rfl,
          ?_, fun j hj => B.silent_of_meets hmeets hj ds⟩
        rw [effect_of_meets hsingle, Bus.meet]
        dsimp only [MasterFrame.asked]
        rw [if_pos hmeets, if_pos hmeets]
      · refine Or.inr ⟨unit, r, rfl, hr, hmeets, ?_, ?_⟩
        · exact if_neg hmeets
        · exact if_neg hmeets
  | damaged unit r x y =>
      refine Or.inl ⟨.damaged unit r x y, ⟨hm.1, ?_⟩, rfl, rfl,
        fun _ _ => rfl⟩
      rw [B.crcCalc_eq]
      exact hm.2
  | cut unit r k =>
      refine Or.inl ⟨.cut unit r k, ⟨hm.1, ?_⟩, rfl, rfl, fun _ _ => rfl⟩
      rw [B.crcCalc_eq]
      exact hm.2

/-- What a station says does not depend on what the others say. -/
theorem Bus.Turn.said_eq
    (hpause : 0 < pause) (hx : ∀ i, (x i).Listening pause)
    (hm : m.Valid B)
    (hturn : B.Turn pause (m.bytes B.crcCalc) x said x') :
    said = (B.meet (devices x) m).1 := by
  funext i
  rcases hturn.polls i with ⟨err, hrun⟩
  have hsent := hturn.spoken i
  rcases hm.transaction (devices x) i with
    ⟨t, ht, hbursts, heffect, -⟩ | ⟨unit, r, rfl, hr, hother, hnone, -⟩
  · obtain ⟨err', s', hrun', -⟩ := poll_listening (B.transport_eq i) hpause
      (hx i) ht heffect ((List.finRange n).flatMap fun j =>
        if j = i then [] else said j)
    rw [B.crcCalc_eq, hbursts] at hrun'
    have hline : (x' i).line = _ :=
      congrArg Prod.snd (hrun.symm.trans hrun')
    rw [hline] at hsent
    exact (List.append_cancel_left hsent).symm
  · have hsilent := poll_silent (B.transport_eq i) (hx i).byteTimeout
      (hx i).readTimeout hr hother ((List.finRange n).flatMap fun j =>
        if j = i then [] else said j) (x i).line.sent
    rw [(hx i).hears_eq] at hrun
    rw [B.crcCalc_eq] at hsilent
    have hsame := hsilent.of_run hrun
    rw [hsame] at hsent
    rw [hnone]
    exact (List.self_eq_append_right.mp hsent)

/-- A station hears a transaction of its own. -/
theorem MasterFrame.Valid.heard
    (hm : m.Valid B) (ds : Fin n → δ) (i : Fin n) :
    ∃ t : Transaction, t.Valid (B.conf i) ∧
      heardBy (m.bytes B.crcCalc) (B.meet ds m).1 i =
        t.bursts (B.conf i).crcCalc ∧
      t.effect (B.conf i) (ds i) =
        some ((B.meet ds m).1 i, (B.meet ds m).2 i) := by
  rw [B.crcCalc_eq]
  rcases hm.transaction ds i with
    ⟨t, ht, hbursts, heffect, hothers⟩ |
      ⟨unit, r, rfl, hr, hother, hnone, hsame⟩
  · refine ⟨t, ht, ?_, heffect⟩
    rw [hbursts]
    exact heardBy_silent hothers
  · rcases hm with ⟨hunit, -, hsingle⟩
    obtain ⟨j, hj⟩ := hunit.resolve_left fun h => hother (Or.inl h)
    have hne : j ≠ i := by
      rintro rfl
      exact hother (Or.inr hj)
    have hmeets : (B.conf j).Meets (unit, r) := Or.inr hj
    have hunit : unit ≠ nmbsBroadcastAddress := by
      rw [hj]
      exact B.address_ne j
    obtain ⟨reply, d', hserve, hfits⟩ :=
      serve_fits (B.conf j).callbacks unit hsingle (ds j)
    have hsaid : (B.meet ds (.request unit r)).1 j =
        [withCheck B.crcCalc (reply.body unit r.fc)] := by
      refine (if_pos hmeets).trans ?_
      rw [NmbsConf.answer, hserve, Option.elim, answerFrames, if_neg hunit,
        B.crcCalc_eq]
    rw [hnone, hsame, heardBy_one hne
      (fun k hk => B.silent_of_meets hmeets hk ds), hsaid]
    cases reply with
    | response fields =>
        exact ⟨.others unit r fields, ⟨hother, hr, hfits⟩, rfl, rfl⟩
    | exception code =>
        exact ⟨.refused unit r code.byte, ⟨hother, hr, hfits⟩, rfl, rfl⟩

/-- There is a turn for every frame of the master. -/
theorem Bus.exists_turn
    (hpause : 0 < pause) (hx : ∀ i, (x i).Listening pause)
    (hm : m.Valid B) :
    ∃ x', B.Turn pause (m.bytes B.crcCalc) x (B.meet (devices x) m).1 x' := by
  have hpoll : ∀ i, ∃ err s', runDialogue (respond pause)
      (nmbsServerPoll (B.conf i) (x i).server)
      ((x i).hears
        (heardBy (m.bytes B.crcCalc) (B.meet (devices x) m).1 i)) =
      (some (err, s'), ⟨[], [],
        (x i).line.sent ++ (B.meet (devices x) m).1 i⟩) := by
    intro i
    rcases hm.heard (devices x) i with ⟨t, ht, hheard, heffect⟩
    obtain ⟨err, s', hrun, -⟩ := poll_listening (B.transport_eq i) hpause
      (hx i) ht heffect []
    rw [List.append_nil] at hrun
    rw [hheard]
    exact ⟨err, s', hrun⟩
  choose err s' hrun using hpoll
  exact ⟨fun i => ⟨s' i, _⟩, fun i => ⟨err i, hrun i⟩, fun _ => rfl⟩

/-- Behind a turn the stations listen again, with the devices as expected. -/
theorem Bus.Turn.next
    (hpause : 0 < pause) (hx : ∀ i, (x i).Listening pause)
    (hm : m.Valid B)
    (hturn : B.Turn pause (m.bytes B.crcCalc) x said x') :
    devices x' = (B.meet (devices x) m).2 ∧
      ∀ i, (x' i).Listening pause := by
  have hsaid := hturn.said_eq hpause hx hm
  subst hsaid
  have hstation : ∀ i, (x' i).server.device = (B.meet (devices x) m).2 i ∧
      (x' i).Listening pause := by
    intro i
    rcases hturn.polls i with ⟨err, hrun⟩
    rcases hm.heard (devices x) i with ⟨t, ht, hheard, heffect⟩
    obtain ⟨err', s', hrun', hdevice, hbt, hrt⟩ :=
      poll_listening (B.transport_eq i) hpause (hx i) ht heffect []
    rw [List.append_nil, ← hheard] at hrun'
    obtain ⟨hresult, hline⟩ := Prod.mk.inj (hrun.symm.trans hrun')
    have hserver : (x' i).server = s' :=
      congrArg Prod.snd (Option.some.inj hresult)
    refine ⟨hserver ▸ hdevice, ?_, ?_, ?_, ?_⟩
    · rw [hline]
    · rw [hline]
    · rw [hserver, hbt]
      exact (hx i).byteTimeout
    · rw [hserver, hrt]
      exact (hx i).readTimeout
  exact ⟨funext fun i => (hstation i).1, fun i => (hstation i).2⟩

/-- At most one station speaks. -/
theorem Bus.one_speaks
    {ds : Fin n → δ} {i j : Fin n} (hi : (B.meet ds m).1 i ≠ [])
    (hj : (B.meet ds m).1 j ≠ []) :
    i = j := by
  cases m with
  | request unit r =>
      by_contra hne
      by_cases hmeets : (B.conf j).Meets (unit, r)
      · exact hi (B.silent_of_meets hmeets hne ds)
      · exact hj (if_neg hmeets)
  | damaged | cut =>
      exact absurd rfl hi

/-- A device is what the requests that its station meets make of it. -/
theorem runState_meet (ds : Fin n → δ) (ms : List MasterFrame) (i : Fin n) :
    runState B.meet ds ms i =
      ((ms.filterMap MasterFrame.asked).filter (B.conf i).Meets).foldl
        (B.conf i).take (ds i) := by
  induction ms generalizing ds with
  | nil =>
      rfl
  | cons m ms ih =>
      rw [runState_cons, ih]
      cases m with
      | request unit r =>
          have hasked : (MasterFrame.request unit r :: ms).filterMap
              MasterFrame.asked =
              (unit, r) :: ms.filterMap MasterFrame.asked := rfl
          rw [hasked]
          by_cases hmeets : (B.conf i).Meets (unit, r)
          · rw [List.filter_cons_of_pos (by simpa using hmeets),
              List.foldl_cons]
            congr 1
            exact if_pos hmeets
          · rw [List.filter_cons_of_neg (by simpa using hmeets)]
            congr 1
            exact if_neg hmeets
      | damaged | cut =>
          rfl

end Turns

section Sharing

variable {n : Nat} {δ : Type}
variable (B : Bus n δ)
variable {pause : Int32}

/--
The servers at a bus do not disturb each other. For the frames of a master there
are turns, and in all of them each station says what the requests demand, at
most one speaks in a turn, and each device is what the requests to its unit and
to all units make of it. The stations then listen as before.
-/
theorem servers_share_bus
    (hpause : 0 < pause) (x : Fin n → Station δ)
    (hx : ∀ i, (x i).Listening pause)
    (ms : List MasterFrame) (hms : ∀ m ∈ ms, m.Valid B) :
    (∃ log x', B.Run pause ms x log x') ∧
      ∀ log x', B.Run pause ms x log x' →
        log = runReplies B.meet (devices x) ms ∧
          (∀ said ∈ log, ∀ i j, said i ≠ [] → said j ≠ [] → i = j) ∧
          ∀ i, (x' i).Listening pause ∧
            (x' i).server.device =
              ((ms.filterMap MasterFrame.asked).filter
                (B.conf i).Meets).foldl (B.conf i).take
                  (x i).server.device := by
  induction ms generalizing x with
  | nil =>
      refine ⟨⟨[], x, .nil x⟩, fun log x' hrun => ?_⟩
      cases hrun
      exact ⟨rfl, fun said hsaid => (List.not_mem_nil hsaid).elim,
        fun i => ⟨hx i, rfl⟩⟩
  | cons m ms ih =>
      have hm := hms m (List.mem_cons_self ..)
      have hrest : ∀ m' ∈ ms, m'.Valid B :=
        fun m' hm' => hms m' (List.mem_cons_of_mem m hm')
      constructor
      · obtain ⟨x', hturn⟩ := Bus.exists_turn hpause hx hm
        rcases hturn.next hpause hx hm with ⟨-, hx'⟩
        obtain ⟨⟨log, x'', hrun⟩, -⟩ := ih x' hx' hrest
        exact ⟨_, x'', .cons hturn hrun⟩
      · intro log x'' hrun
        cases hrun with
        | @cons _ _ _ x' _ said log hturn hrun =>
            have hsaid := hturn.said_eq hpause hx hm
            rcases hturn.next hpause hx hm with ⟨hdevices, hx'⟩
            obtain ⟨hlog, hone, hend⟩ := (ih x' hx' hrest).2 log x'' hrun
            refine ⟨?_, ?_, fun i => ⟨(hend i).1, ?_⟩⟩
            · rw [runReplies_cons, ← hsaid, ← hdevices, ← hlog]
            · intro said' hmem i j hi hj
              rcases List.mem_cons.mp hmem with rfl | hmem
              · rw [hsaid] at hi hj
                exact Bus.one_speaks hi hj
              · exact hone said' hmem i j hi hj
            · rw [(hend i).2]
              have hall := @runState_meet n δ B (devices x) (m :: ms) i
              rw [runState_cons, ← hdevices, runState_meet] at hall
              exact hall

/-- Two servers of port.c. -/
def twoServers : Bus 2 (PortDevice GpioPinState) where
  conf i := portConf .level (UInt8.ofNat (i.val + 1))
  crcCalc := nmbsCrcCalc
  transport_eq _ := rfl
  crcCalc_eq _ := rfl
  address_ne := by
    decide
  address_inj := by
    decide

/-- Both listen, with their LEDs off. -/
def twoStations (_ : Fin 2) : Station (PortDevice GpioPinState) where
  server := portServer ⟨darkBoard, FileReceiver.initial⟩
  line := ⟨[], [], []⟩

/-- A write to one unit, a damaged one, and a write to all units. -/
def threeFrames : List MasterFrame :=
  [.request 2 (.writeRegister 0 5), .damaged 2 (.writeRegister 0 6) 0 0,
    .request 0 (.writeRegister 1 1)]

/-- The loop count changes in one device, the LED lights in both. -/
theorem servers_share_bus_two :
    ∃ log x', twoServers.Run 150 threeFrames twoStations log x' ∧
      (x' 0).server.device.board = ⟨-1, .gpioPinSet⟩ ∧
      (x' 1).server.device.board = ⟨5, .gpioPinSet⟩ := by
  have hbyte : (100 : Int32) < 150 := by
    decide
  have hread : (150 : Int32) ≤ 200 := by
    decide
  have hlisten : ∀ i, (twoStations i).Listening 150 :=
    fun _ => ⟨rfl, rfl, hbyte, hread⟩
  have hvalid : ∀ m ∈ threeFrames, m.Valid twoServers := by
    intro m hm
    rcases hm with _ | ⟨_, _ | ⟨_, _ | ⟨_, hm⟩⟩⟩
    · exact ⟨Or.inr ⟨1, rfl⟩, trivial, trivial⟩
    · exact ⟨trivial, by decide +kernel⟩
    · exact ⟨Or.inl rfl, trivial, trivial⟩
    · cases hm
  obtain ⟨⟨log, x', hrun⟩, hall⟩ := servers_share_bus twoServers
    (by decide) twoStations hlisten threeFrames hvalid
  rcases hall log x' hrun with ⟨-, -, hend⟩
  refine ⟨log, x', hrun, ?_, ?_⟩
  · rw [(hend 0).2]
    rfl
  · rw [(hend 1).2]
    rfl

end Sharing

end Port
end ModbusRtu
