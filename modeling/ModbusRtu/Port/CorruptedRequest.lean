import ModbusRtu.Port.BusConversation
import ModbusRtu.Port.NmbsCrc

/-!
# Requests hit by errors on the bus

The check of a frame is there for errors on the bus: less than four wrong bits,
an odd number of them, or wrong bits that are all within sixteen. A frame that
such errors have hit has a wrong check, whatever else they have made of it.

So among requests to this unit those that have been hit and can still be read as
requests of their length are lost and do no harm, where pauses that fit the
timeouts separate the requests. They are answered by nothing, and the replies to
the others and the device are as if only these had been sent.
-/

namespace ModbusRtu
namespace Port

open Kernel

section Errors

/-- The errors that the check is there for. -/
def Detectable (errors : List Bool) : Prop :=
  errors.count true < 4 ∨ errors.count true % 2 = 1 ∨
    ∃ i, ∀ j, errors[j]? = some true → i ≤ j ∧ j < i + 16

variable {f g : List UInt8}

/-- A checked frame that such errors have hit is not checked any more. -/
theorem not_checked_of_detectable
    (hf : Checked nmbsCrcCalc f) (hlen : f.length = g.length)
    (hfit : f.length ≤ 260) (hne : f ≠ g)
    (hdetectable : Detectable (bitErrors f g)) :
    ¬ Checked nmbsCrcCalc g := by
  intro hg
  have hbits : (bitErrors f g).length ≤ 2080 := by
    rw [length_bitErrors hlen]
    omega
  obtain ⟨hfour, heven, i, j, hfar, hi, hj⟩ :=
    distance_of_silent crcGenerator_msb (by omega) (by rfl)
      (iterate_one_ne_one_of_neverOne neverOne_crcGenerator) hbits
      (silent_of_checked hf hg hlen) (mem_bitErrors_of_ne hlen hne)
  rcases hdetectable with hfew | hodd | ⟨k, hclose⟩
  · omega
  · omega
  · have hfirst := hclose i hi
    have hsecond := hclose j hj
    omega

/-- The frame of a well-formed request fits into the message buffer. -/
theorem length_requestFrame_le
    {crcCalc : List UInt8 → UInt16} {unit : UInt8} {r : Request}
    (hr : r.WellFormed) :
    (requestFrame crcCalc (unit, r)).length ≤ 260 := by
  cases r with
  | readRegisters address quantity | writeRegister address value =>
      simp [requestFrame, withCheck, Request.body, Request.fields]
  | writeRegisters address quantity byteCount data =>
      rcases hr with ⟨-, -, hsmall⟩
      simp [requestFrame, withCheck, Request.body, Request.fields]
      omega
  | writeRecords data =>
      have hsmall : data.length ≤ 251 := hr
      simp [requestFrame, withCheck, Request.body, Request.fields]
      omega

end Errors

section Arrivals

/-- A request to this unit, and the burst that arrives in its place. -/
structure Arrival where
  unit : UInt8
  request : Request
  burst : List UInt8

/-- The frame of the request arrives as it was sent. -/
def Arrival.Intact (a : Arrival) : Prop :=
  a.burst = requestFrame nmbsCrcCalc (a.unit, a.request)

instance (a : Arrival) : Decidable a.Intact :=
  inferInstanceAs (Decidable (_ = _))

/-- Errors have hit the frame, and it can still be read as a request. -/
structure Arrival.Hit (a : Arrival) : Prop where
  length_eq : (requestFrame nmbsCrcCalc (a.unit, a.request)).length =
    a.burst.length
  detectable :
    Detectable (bitErrors (requestFrame nmbsCrcCalc (a.unit, a.request))
      a.burst)
  readable : ∃ (unit : UInt8) (r : Request) (x y : UInt8),
    r.WellFormed ∧ a.burst = r.body unit ++ [x, y]

variable {δ : Type}

/-- Which arrivals there are. -/
structure Arrival.Valid (conf : NmbsConf δ) (a : Arrival) : Prop where
  ours : a.unit = nmbsBroadcastAddress ∨ a.unit = conf.addressRtu
  wellFormed : a.request.WellFormed
  bounded : a.request.Bounded
  intact_or_hit : a.Intact ∨ a.Hit

/-- What a poll returns for an arrival. -/
def Arrival.status (a : Arrival) : NmbsError :=
  if a.Intact then .errorNone else .errorCrc

/-- The transactions of the requests that arrive intact. -/
def intactRequests (as : List Arrival) : List Transaction :=
  (as.filter fun a => a.Intact).map fun a => .ours a.unit a.request

variable {conf : NmbsConf δ}

/-- A request that has been hit has a wrong check. -/
theorem exists_damaged
    (hcrc : conf.crcCalc = nmbsCrcCalc) {a : Arrival}
    (ha : a.Valid conf) (hhit : ¬ a.Intact) :
    ∃ unit r x y, (Transaction.damaged unit r x y).Valid conf ∧
      (Transaction.damaged unit r x y).bursts conf.crcCalc = [a.burst] := by
  have hne : requestFrame nmbsCrcCalc (a.unit, a.request) ≠ a.burst :=
    fun h => hhit h.symm
  obtain ⟨hlen, hdetectable, unit, r, x, y, hr, hburst⟩ :=
    ha.intact_or_hit.resolve_left hhit
  have hbad := not_checked_of_detectable ⟨_, rfl⟩ hlen
    (length_requestFrame_le ha.wellFormed) hne hdetectable
  refine ⟨unit, r, x, y, ⟨hr, ?_⟩, ?_⟩
  · intro hcheck
    refine hbad ⟨r.body unit, ?_⟩
    rw [hburst, hcheck, hcrc, withCheck]
  · rw [Transaction.bursts, hburst]

/-- One transaction more at the front. -/
theorem converse_congr
    {t t' : Transaction} {ts ts' : List Transaction}
    (ht : t.effect conf = t'.effect conf)
    (hts : converse conf ts = converse conf ts') :
    converse conf (t :: ts) = converse conf (t' :: ts') := by
  funext d
  rw [converse, converse, ht, hts]

theorem converse_quiet
    {t : Transaction} (ht : ∀ d, t.effect conf d = some ([], d))
    (ts : List Transaction) :
    converse conf (t :: ts) = converse conf ts := by
  funext d
  rw [converse_cons (ht d)]
  exact Option.map_id'

/-- Arrivals are transactions, of which only the intact ones have an effect. -/
theorem exists_transactions
    (hcrc : conf.crcCalc = nmbsCrcCalc) (as : List Arrival)
    (hvalid : ∀ a ∈ as, a.Valid conf) :
    ∃ ts : List Transaction, (∀ t ∈ ts, t.Valid conf) ∧
      ts.flatMap (Transaction.bursts conf.crcCalc) =
        as.map Arrival.burst ∧
      ts.map Transaction.status = as.map Arrival.status ∧
      converse conf ts = converse conf (intactRequests as) := by
  induction as with
  | nil =>
      exact ⟨[], fun t ht => (List.not_mem_nil ht).elim, rfl, rfl, rfl⟩
  | cons a as ih =>
      obtain ⟨ts, hts, hbursts, hstatus, hconverse⟩ :=
        ih fun b hb => hvalid b (List.mem_cons_of_mem a hb)
      have ha := hvalid a List.mem_cons_self
      by_cases hintact : a.Intact
      · refine ⟨.ours a.unit a.request :: ts, ?_, ?_, ?_, ?_⟩
        · rw [List.forall_mem_cons]
          exact ⟨⟨ha.ours, ha.wellFormed, ha.bounded⟩, hts⟩
        · rw [List.flatMap_cons, hbursts, Transaction.bursts, hcrc,
            ← hintact]
          rfl
        · rw [List.map_cons, List.map_cons, hstatus, Arrival.status,
            if_pos hintact]
          rfl
        · rw [intactRequests, List.filter_cons_of_pos (by simpa using hintact)]
          exact converse_congr rfl hconverse
      · obtain ⟨unit, r, x, y, hdamaged, hburst⟩ :=
          exists_damaged hcrc ha hintact
        refine ⟨.damaged unit r x y :: ts, ?_, ?_, ?_, ?_⟩
        · rw [List.forall_mem_cons]
          exact ⟨hdamaged, hts⟩
        · rw [List.flatMap_cons, hbursts, hburst]
          rfl
        · rw [List.map_cons, List.map_cons, hstatus, Arrival.status,
            if_neg hintact]
          rfl
        · rw [intactRequests,
            List.filter_cons_of_neg (by simpa using hintact)]
          exact (converse_quiet (fun d => rfl) ts).trans hconverse

end Arrivals

section Conversations

variable {δ : Type}
variable {conf : NmbsConf δ}
variable {pause : Int32}

/--
Requests that errors have hit do no harm. One poll for each arrival returns
NMBS_ERROR_CRC for those, and the replies that are sent and the device are those
of the conversation in which only the others occur.
-/
theorem corrupted_requests_are_lost
    (hrtu : conf.transport = .nmbsTransportRtu)
    (hcrc : conf.crcCalc = nmbsCrcCalc) (s : Server δ)
    (hpause : 0 < pause) (hbt : s.byteTimeoutMs < pause)
    (hrt : pause ≤ s.readTimeoutMs)
    (as : List Arrival) (hvalid : ∀ a ∈ as, a.Valid conf)
    (sent : List (List UInt8)) :
    Leads (answering (respond pause))
      (fun _ => converse conf (intactRequests as) s.device = none)
      (times (nmbsServerPoll conf) as.length) s
      ⟨[], as.map Arrival.burst, sent⟩
      fun errs s' line =>
        errs = as.map Arrival.status ∧
          line.current = [] ∧ line.coming = [] ∧
          ∃ frames, converse conf (intactRequests as) s.device =
              some (frames, s'.device) ∧
            line.sent = sent ++ frames := by
  obtain ⟨ts, hts, hbursts, hstatus, hconverse⟩ :=
    exists_transactions hcrc as hvalid
  have hlen : ts.length = as.length := by
    have hboth := congrArg List.length hstatus
    rwa [List.length_map, List.length_map] at hboth
  have hconversation :=
    conversation hrtu s hpause hbt hrt ts hts sent
  rw [hlen, hbursts, hstatus, hconverse] at hconversation
  refine hconversation.imp ?_
  rintro errs s' line ⟨herrs, -, -, hcurrent, hcoming, hsent⟩
  exact ⟨herrs, hcurrent, hcoming, hsent⟩

/-- The frame of a write of a register, one bit of whose value is wrong. -/
def wrongBit : Arrival where
  unit := 1
  request := .writeRegister 1 1
  burst := [1, 6, 0, 1, 0, 3] ++ wireBytes (nmbsCrcCalc [1, 6, 0, 1, 0, 1])

/-- The same request again, intact. -/
def repeated : Arrival where
  unit := 1
  request := .writeRegister 1 1
  burst := requestFrame nmbsCrcCalc (1, .writeRegister 1 1)

theorem wrongBit_hit : wrongBit.Hit where
  length_eq := rfl
  detectable := by
    have hcheck : wireBytes (nmbsCrcCalc [1, 6, 0, 1, 0, 1]) =
        [25, 202] := by
      decide +kernel
    have hframe : requestFrame nmbsCrcCalc (1, .writeRegister 1 1) =
        [1, 6, 0, 1, 0, 1] ++ wireBytes (nmbsCrcCalc [1, 6, 0, 1, 0, 1]) :=
      rfl
    rw [wrongBit, hframe, hcheck]
    exact Or.inl (by decide)
  readable := ⟨1, .writeRegister 1 3, _, _, trivial, rfl⟩

/-- The first of two requests is hit, and only the second one is answered. -/
theorem corrupted_requests_are_lost_repeated :
    Leads (answering (respond 150)) (fun _ => False)
      (times (nmbsServerPoll bareConf) 2) bareServer
      ⟨[], [wrongBit, repeated].map Arrival.burst, []⟩
      fun errs _ line => errs = [.errorCrc, .errorNone] ∧
        line.sent = [withCheck nmbsCrcCalc [1, 0x86, 1]] := by
  have hwrong : ¬ wrongBit.Intact := by
    decide
  have hright : repeated.Intact := rfl
  have hrequests : intactRequests [wrongBit, repeated] =
      [.ours 1 (.writeRegister 1 1)] := by
    rw [intactRequests, List.filter_cons_of_neg (by simpa using hwrong),
      List.filter_cons_of_pos (by simpa using hright)]
    rfl
  have hvalid : ∀ a ∈ [wrongBit, repeated], a.Valid bareConf := by
    intro a ha
    rcases List.mem_pair.mp ha with rfl | rfl
    · exact ⟨Or.inr rfl, trivial, trivial, Or.inr wrongBit_hit⟩
    · exact ⟨Or.inr rfl, trivial, trivial, Or.inl hright⟩
  have hlost := @corrupted_requests_are_lost Unit bareConf 150 rfl rfl
    bareServer (by decide) (by decide) (by decide) _ hvalid []
  rw [hrequests] at hlost
  refine hlost.mono ?_ fun _ hnone => by cases hnone
  rintro errs s' line ⟨rfl, -, -, frames, hframes, hsent⟩
  obtain ⟨rfl, -⟩ := Prod.mk.inj (Option.some.inj hframes)
  refine ⟨?_, hsent⟩
  rw [List.map_cons, List.map_cons, Arrival.status, if_neg hwrong,
    Arrival.status, if_pos hright]
  rfl

end Conversations

end Port
end ModbusRtu
