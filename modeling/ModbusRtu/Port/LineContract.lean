import ModbusRtu.Kernel.Segments
import ModbusRtu.Port.PollAgreement

/-!
# What the server does on any line

Nothing is assumed of the line here: every read may store any bytes that the
contract of nanomodbus.h allows, and every write may fail. The line records what
has been heard and what has been given to the platform to send, whatever came of
it.

Each poll hears bytes and makes at most one exchange of them. An exchange is
either the service of a request, whose frame with its check is among the bytes
heard and names this unit or all units, or the refusal of a function code. The
device is what the services make of it, in their order, and the frames sent are
the answers to the exchanges, in their order; a frame for all units is not
answered. Whatever else is heard changes nothing and is not answered.

The result holds up to an undefined access to the message buffer. There are
three kinds of them, and the bytes heard tell which one it was.
-/

namespace ModbusRtu
namespace Port

open Kernel

section Lines

/-- What has been heard on a line, and the frames handed to the write call. -/
structure Line where
  heard : List UInt8
  sent : List (List UInt8)

/-- The line on which more has been heard. -/
def Line.hear (line : Line) (bytes : List UInt8) : Line :=
  { line with heard := line.heard ++ bytes }

/-- The line for which one more frame has been handed to the write call. -/
def Line.say (line : Line) (frame : List UInt8) : Line :=
  { line with sent := line.sent ++ [frame] }

@[simp] theorem Line.hear_nil (line : Line) : line.hear [] = line := by
  rw [Line.hear, List.append_nil]

@[simp] theorem Line.hear_hear (line : Line) (xs ys : List UInt8) :
    (line.hear xs).hear ys = line.hear (xs ++ ys) := by
  rw [Line.hear, Line.hear, Line.hear, List.append_assoc]

/-- The line on which everything may be heard. -/
def anyLine : Environment LineCall LineAnswer Line
  | line, .read _ _, a, line' => line' = line.hear a.stored
  | line, .write bytes _, _, line' => line' = line.say bytes

end Lines

section Exchanges

/-- The bytes of a frame that the check does not cover. -/
def Request.slack : Request → Nat
  | .writeRegisters _ _ byteCount _ => byteCount.toNat % 2
  | _ => 0

/-- The byte count of a file request is not above what is received. -/
def Request.InLimit : Request → Prop
  | .writeRecords data => data.length ≤ 251
  | _ => True

/-- The service of a request, or the refusal of a function code. -/
inductive Exchange
  | served (unit : UInt8) (r : Request) (pad : List UInt8) (reply : Reply)
  | refused (unit fc : UInt8)

/-- The function codes that the server serves. -/
def Served (fc : UInt8) : Prop :=
  fc = 3 ∨ fc = 6 ∨ fc = 16 ∨ fc = 21

instance (fc : UInt8) : Decidable (Served fc) :=
  inferInstanceAs (Decidable (_ ∨ _))

variable {δ : Type}

/-- The bytes that an exchange is about. -/
def Exchange.frame (crcCalc : List UInt8 → UInt16) :
    Exchange → List UInt8
  | .served unit r pad _ =>
      r.body unit ++ pad ++ wireBytes (crcCalc (r.body unit))
  | .refused unit fc => [unit, fc]

/-- The frames that a reply to a unit is sent in. -/
def answerFrames (crcCalc : List UInt8 → UInt16) (unit fc : UInt8)
    (reply : Reply) : List (List UInt8) :=
  if unit = nmbsBroadcastAddress then []
  else [withCheck crcCalc (reply.body unit fc)]

/-- The frames that answer an exchange. -/
def Exchange.answer (crcCalc : List UInt8 → UInt16) :
    Exchange → List (List UInt8)
  | .served unit r _ reply => answerFrames crcCalc unit r.fc reply
  | .refused unit fc =>
      answerFrames crcCalc unit fc (.exception .exceptionIllegalFunction)

/-- What an exchange makes of the device. -/
inductive Exchange.Takes (conf : NmbsConf δ) : Exchange → δ → δ → Prop
  | served {unit : UInt8} {r : Request} {pad : List UInt8} {reply : Reply}
      {d d' : δ} (stale : List UInt8)
      (hours : unit = nmbsBroadcastAddress ∨ unit = conf.addressRtu)
      (hpad : pad.length = r.slack)
      (hserve : serve conf.callbacks unit stale r d = some (reply, d')) :
      Takes conf (.served unit r pad reply) d d'
  | refused {unit fc : UInt8} {d : δ}
      (hours : unit = nmbsBroadcastAddress ∨ unit = conf.addressRtu)
      (hfc : ¬ Served fc) :
      Takes conf (.refused unit fc) d d

/-- What exchanges make of the device one after the other. -/
inductive Exchanges (conf : NmbsConf δ) : List Exchange → δ → δ → Prop
  | nil (d : δ) :
      Exchanges conf [] d d
  | cons {x : Exchange} {xs : List Exchange} {d d' d'' : δ}
      (hx : x.Takes conf d d') (hxs : Exchanges conf xs d' d'') :
      Exchanges conf (x :: xs) d d''

theorem Exchanges.append
    {conf : NmbsConf δ} {xs ys : List Exchange} {d d' d'' : δ}
    (hxs : Exchanges conf xs d d') (hys : Exchanges conf ys d' d'') :
    Exchanges conf (xs ++ ys) d d'' := by
  induction hxs with
  | nil d =>
      exact hys
  | cons hx hxs ih =>
      exact .cons hx (ih hys)

/-- From device and line to device and line by exchanges. -/
structure Outcome (conf : NmbsConf δ) (xs : List Exchange)
    (d : δ) (line : Line) (d' : δ) (line' : Line) : Prop where
  took : Exchanges conf xs d d'
  heard : ∃ bytes, line'.heard = line.heard ++ bytes ∧
    Scattered (xs.map (Exchange.frame conf.crcCalc)) bytes
  sent : line'.sent =
    line.sent ++ xs.flatMap (Exchange.answer conf.crcCalc)

variable {conf : NmbsConf δ}

theorem Outcome.refl (conf : NmbsConf δ) (d : δ) (line : Line) :
    Outcome conf [] d line d line where
  took := .nil d
  heard := ⟨[], (List.append_nil _).symm, .nil []⟩
  sent := (List.append_nil _).symm

theorem Outcome.trans
    {xs ys : List Exchange} {d d' d'' : δ} {line line' line'' : Line}
    (h : Outcome conf xs d line d' line')
    (h' : Outcome conf ys d' line' d'' line'') :
    Outcome conf (xs ++ ys) d line d'' line'' := by
  rcases h.heard with ⟨bytes, hbytes, hscattered⟩
  rcases h'.heard with ⟨bytes', hbytes', hscattered'⟩
  refine ⟨h.took.append h'.took, ⟨bytes ++ bytes', ?_, ?_⟩, ?_⟩
  · rw [hbytes', hbytes, List.append_assoc]
  · rw [List.map_append]
    exact hscattered.append hscattered'
  · rw [h'.sent, h.sent, List.flatMap_append, List.append_assoc]

/-- Hearing more is no exchange. -/
theorem Outcome.hear
    {xs : List Exchange} {d d' : δ} {line line' : Line}
    (h : Outcome conf xs d line d' line') (bytes : List UInt8) :
    Outcome conf xs d line d' (line'.hear bytes) := by
  rcases h.heard with ⟨heard, hheard, hscattered⟩
  refine ⟨h.took, ⟨heard ++ bytes, ?_, hscattered.append_right bytes⟩,
    h.sent⟩
  rw [Line.hear, hheard, List.append_assoc]

/-- One exchange behind the bytes it is about. -/
theorem Outcome.exchange
    {x : Exchange} {d d' : δ} {line line' : Line} {rest : List UInt8}
    (htakes : x.Takes conf d d')
    (hheard : line'.heard =
      line.heard ++ (x.frame conf.crcCalc ++ rest))
    (hsent : line'.sent = line.sent ++ x.answer conf.crcCalc) :
    Outcome conf [x] d line d' line' := by
  refine ⟨.cons htakes (.nil d'), ⟨_, hheard, ?_⟩, ?_⟩
  · exact scattered_singleton _ _
  · rw [hsent, List.flatMap_singleton]

end Exchanges

section Hazards

variable {δ : Type}

/-- The place where the check of an overheard file response is expected. -/
def checkPlace (image : ByteMem) : Nat :=
  (10 + (halfword (image 8) (image 9)).toNat * 2 % 65536) % 65536

/--
Of an overheard file response h has been heard, and the bytes behind it are
those with which the access to its check leaves the buffer.
-/
structure PastEnd (unit : UInt8) (buf : ByteMem) (h bytes : List UInt8) :
    Prop where
  unit_eq : h.getD 0 0 = unit
  fc_eq : h.getD 1 0 = 21
  small : (h.getD 2 0).toNat ≤ 251
  length_eq : h.length = 3 + (h.getD 2 0).toNat
  past : msgBufSize < checkPlace (storeBytes buf 0 h) + bytes.length
  length_le : bytes.length ≤ 2
  atOnce : msgBufSize < checkPlace (storeBytes buf 0 h) → bytes = []

/--
What has been heard since the poll began where the server runs into an undefined
access to its buffer, which held old before.
-/
inductive Hazard (conf : NmbsConf δ) (old : ByteMem) (d : δ) :
    List UInt8 → Prop
  /-- More registers than the buffer holds, received before they are counted. -/
  | registers {unit byteCount : UInt8} {fields data : List UInt8}
      (hfields : fields.length = 4)
      (hcount : data.length ≤ byteCount.toNat)
      (hlong : msgBufSize < 7 + data.length) :
      Hazard conf old d ([unit, 16] ++ fields ++ byteCount :: data)
  /-- Records of a file request where their service is undefined. -/
  | records {unit : UInt8} {data : List UInt8}
      (hours : unit = nmbsBroadcastAddress ∨ unit = conf.addressRtu)
      (hsmall : data.length ≤ 251)
      (hserve : serve conf.callbacks unit
        (staleBehind conf old (Request.body unit (.writeRecords data)))
        (.writeRecords data) d = none) :
      Hazard conf old d
        (withCheck conf.crcCalc (Request.body unit (.writeRecords data)))
  /-- The response of another unit claims more than the buffer holds. -/
  | overheard {unit : UInt8} {data h bytes : List UInt8}
      (hother : ¬ (unit = nmbsBroadcastAddress ∨ unit = conf.addressRtu))
      (hsmall : data.length ≤ 251)
      (hpast : PastEnd unit
        (storeBytes old 0 (withCheck conf.crcCalc
          (Request.body unit (.writeRecords data)))) h bytes) :
      Hazard conf old d
        (withCheck conf.crcCalc (Request.body unit (.writeRecords data)) ++
          h ++ bytes)

end Hazards

section Listening

variable {δ : Type}
variable {crcCalc : List UInt8 → UInt16}
variable {bt rt t : Int32}
variable {wrong : Line → Prop}
variable {line : Line} {d : δ}
variable {post : NmbsError × δ → Line → Prop}

theorem ends_read {n : Nat} {next : ReadAnswer n → Conduct δ}
    (h : ∀ a, Ends anyLine wrong (next a) (line.hear a.stored) post) :
    Ends anyLine wrong (.ask (.read n t) next) line post := by
  rintro a line' rfl
  exact h a

theorem ends_write {frame : List UInt8} {next : Int → Conduct δ}
    (h : ∀ ret, Ends anyLine wrong (next ret) (line.say frame) post) :
    Ends anyLine wrong (.ask (.write frame t) next) line post := by
  rintro ret line' rfl
  exact h ret

/-- Listening hears the bytes asked for, stops, or hears too much. -/
theorem ends_listen
    {n : Nat} {heard : List UInt8} {next : List UInt8 → Conduct δ}
    (hnext : ∀ bytes : List UInt8, bytes.length = n →
      heard.length + n ≤ msgBufSize →
      Ends anyLine wrong (next (heard ++ bytes)) (line.hear bytes) post)
    (hstop : ∀ err bytes, post (err, d) (line.hear bytes))
    (hwrong : ∀ bytes : List UInt8, bytes.length ≤ n →
      msgBufSize < heard.length + bytes.length → wrong (line.hear bytes)) :
    Ends anyLine wrong (listen n t heard d next) line post := by
  refine ends_read fun a => ?_
  split
  · exact hwrong a.stored a.length_stored_le ‹_›
  · rename_i hroom
    split
    · rename_i hfull
      have hlen := length_of_errorNone hfull
      exact hnext a.stored hlen (by omega)
    · exact hstop _ _

/-- Where the bytes asked for fit nothing goes wrong. -/
theorem ends_listen_inside
    {n : Nat} {heard : List UInt8} {next : List UInt8 → Conduct δ}
    (hfit : heard.length + n ≤ msgBufSize)
    (hnext : ∀ bytes : List UInt8, bytes.length = n →
      Ends anyLine wrong (next (heard ++ bytes)) (line.hear bytes) post)
    (hstop : ∀ err bytes, post (err, d) (line.hear bytes)) :
    Ends anyLine wrong (listen n t heard d next) line post := by
  refine ends_listen (fun bytes hbytes _ => hnext bytes hbytes) hstop
    fun bytes hbytes hlong => ?_
  omega

theorem ends_listenCheck
    {heard : List UInt8} {next : Conduct δ}
    (hnext : Ends anyLine wrong next
      (line.hear (wireBytes (crcCalc heard))) post)
    (hstop : ∀ err bytes, post (err, d) (line.hear bytes)) :
    Ends anyLine wrong (listenCheck crcCalc bt heard d next) line post := by
  refine ends_read fun a => ?_
  split
  · exact hstop _ _
  · split
    · rename_i hcheck
      rw [hcheck]
      exact hnext
    · exact hstop _ _

/-- A reply is sent to the unit that was asked, whatever becomes of it. -/
theorem ends_deliver
    {unit fc : UInt8} {reply : Reply}
    (hpost : ∀ err, post (err, d)
      { line with
        sent := line.sent ++ answerFrames crcCalc unit fc reply }) :
    Ends anyLine wrong (deliver crcCalc bt unit fc reply d) line post := by
  rw [deliver]
  rw [answerFrames] at hpost
  split
  · rename_i hbroadcast
    rw [if_pos hbroadcast, List.append_nil] at hpost
    exact hpost _
  · rename_i hunit
    rw [if_neg hunit] at hpost
    exact ends_write fun ret => hpost _

/-- Whatever ends with any error behind more bytes. -/
def Overheard (d : δ) (line : Line)
    (post : NmbsError × δ → Line → Prop) : Prop :=
  ∀ err bytes, post (err, d) (line.hear bytes)

theorem Overheard.hear
    (h : Overheard d line post) (bytes : List UInt8) :
    Overheard d (line.hear bytes) post := by
  intro err more
  rw [Line.hear_hear]
  exact h err (bytes ++ more)

theorem Overheard.now (h : Overheard d line post) (err : NmbsError) :
    post (err, d) line := by
  have hnone := h err []
  rwa [Line.hear_nil] at hnone

/-- An overheard header is that of the unit and function code asked for. -/
theorem ends_overhearHeader
    {unit fc : UInt8} {next : List UInt8 → Conduct δ}
    (hquiet : Overheard d line post)
    (hnext : ∀ h : List UInt8, h.length = 2 → h.getD 0 0 = unit →
      h.getD 1 0 = fc →
      Ends anyLine wrong (next h) (line.hear h) post) :
    Ends anyLine wrong
      (overhearHeader crcCalc bt rt unit fc d next) line post := by
  have hsize : msgBufSize = 260 := rfl
  refine ends_listen_inside (by rw [List.length_nil]; omega)
    (fun h hone => ?_) hquiet
  rw [List.nil_append]
  refine ends_listen_inside (by omega) (fun h' hone' => ?_)
    (hquiet.hear h)
  have htwo : (h ++ h').length = 2 := by
    rw [List.length_append, hone, hone']
  rw [Line.hear_hear]
  generalize h ++ h' = h at htwo
  split
  · exact (hquiet.hear h).now _
  · rename_i hunit
    split
    · exact hnext h htwo (not_not.mp hunit) ‹_›
    · split
      · refine ends_listen_inside (by omega) (fun bytes hbytes => ?_)
          (hquiet.hear h)
        refine ends_listenCheck ?_ ((hquiet.hear h).hear bytes)
        split
        · exact (((hquiet.hear h).hear bytes).hear _).now _
        · exact (((hquiet.hear h).hear bytes).hear _).now _
      · exact (hquiet.hear h).now _

theorem ends_overhearRead
    {unit : UInt8} {quantity : UInt16} (hquiet : Overheard d line post) :
    Ends anyLine wrong
      (overhearRead crcCalc bt rt unit quantity d) line post := by
  have hsize : msgBufSize = 260 := rfl
  refine ends_overhearHeader hquiet fun h htwo _ _ => ?_
  refine ends_listen_inside (by omega) (fun bytes hbytes => ?_)
    (hquiet.hear h)
  have hthree : (h ++ bytes).length = 3 := by
    rw [List.length_append, htwo, hbytes]
  rw [Line.hear_hear]
  generalize h ++ bytes = h at hthree
  split
  · exact (hquiet.hear h).now _
  · rename_i hsmall
    have hcount : (h.getD 2 0).toNat ≤ 250 := by
      exact Nat.le_of_not_lt hsmall
    refine ends_listen_inside (by omega) (fun data hdata => ?_)
      (hquiet.hear h)
    refine ends_listenCheck ?_ ((hquiet.hear h).hear data)
    split
    · exact (((hquiet.hear h).hear data).hear _).now _
    · exact (((hquiet.hear h).hear data).hear _).now _

theorem ends_overhearWrite
    {unit fc : UInt8} {first second : UInt16}
    (hquiet : Overheard d line post) :
    Ends anyLine wrong
      (overhearWrite crcCalc bt rt unit fc first second d) line post := by
  have hsize : msgBufSize = 260 := rfl
  refine ends_overhearHeader hquiet fun h htwo _ _ => ?_
  refine ends_listen_inside (by omega) (fun bytes hbytes => ?_)
    (hquiet.hear h)
  refine ends_listenCheck ?_ ((hquiet.hear h).hear bytes)
  split
  · exact (((hquiet.hear h).hear bytes).hear _).now _
  · exact (((hquiet.hear h).hear bytes).hear _).now _

/-- An overheard file response goes wrong if it claims too much. -/
theorem ends_overhearRecords
    {unit : UInt8} {buf : ByteMem} (hquiet : Overheard d line post)
    (hwrong : ∀ h bytes : List UInt8, PastEnd unit buf h bytes →
      wrong (line.hear (h ++ bytes))) :
    Ends anyLine wrong
      (overhearRecords crcCalc bt rt unit buf d) line post := by
  have hsize : msgBufSize = 260 := rfl
  refine ends_overhearHeader hquiet fun h htwo hunit hfc => ?_
  refine ends_listen_inside (by omega) (fun bytes hbytes => ?_)
    (hquiet.hear h)
  have hthree : (h ++ bytes).length = 3 := by
    rw [List.length_append, htwo, hbytes]
  have hunit' : (h ++ bytes).getD 0 0 = unit := by
    rw [List.getD_append _ _ _ _ (by omega), hunit]
  have hfc' : (h ++ bytes).getD 1 0 = 21 := by
    rw [List.getD_append _ _ _ _ (by omega), hfc]
  rw [Line.hear_hear]
  generalize h ++ bytes = h at hthree hunit' hfc'
  split
  · exact (hquiet.hear h).now _
  · rename_i hsmall
    have hcount : (h.getD 2 0).toNat ≤ 251 := by
      exact Nat.le_of_not_lt hsmall
    refine ends_listen_inside (by omega) (fun data hdata => ?_)
      (hquiet.hear h)
    have hsize' : (h ++ data).getD 2 0 = h.getD 2 0 :=
      List.getD_append _ _ _ _ (by omega)
    have hlen : (h ++ data).length = 3 + ((h ++ data).getD 2 0).toNat := by
      rw [List.length_append, hsize', hthree, hdata]
    have hunit'' : (h ++ data).getD 0 0 = unit := by
      rw [List.getD_append _ _ _ _ (by omega), hunit']
    have hfc'' : (h ++ data).getD 1 0 = 21 := by
      rw [List.getD_append _ _ _ _ (by omega), hfc']
    rw [Line.hear_hear]
    change Ends anyLine wrong
      (if msgBufSize < checkPlace (storeBytes buf 0 (h ++ data)) then
        .fault
      else
        _) _ _
    split
    · rename_i hbehind
      have hnow := hwrong (h ++ data) []
        ⟨hunit'', hfc'', by rw [hsize']; exact hcount, hlen, hbehind,
          Nat.zero_le 2, fun _ => rfl⟩
      rwa [List.append_nil] at hnow
    · rename_i hbefore
      refine ends_read fun a => ?_
      rw [Line.hear_hear]
      split
      · rename_i houtside
        change ¬ (_ ∨ checkPlace _ + _ ≤ _) at houtside
        exact hwrong (h ++ data) a.stored
          ⟨hunit'', hfc'', by rw [hsize']; exact hcount, hlen, by omega,
            a.length_stored_le, fun hbehind => absurd hbehind hbefore⟩
      · split
        · exact hquiet _ _
        · split
          · exact hquiet _ _
          · exact hquiet _ _

end Listening

section Requests

variable {δ : Type}
variable {conf : NmbsConf δ}
variable {bt rt : Int32}
variable {wrong : Line → Prop}
variable {line : Line} {old : ByteMem} {d : δ}

/-- At most one exchange has been made. -/
def AtMostOne (conf : NmbsConf δ) (line : Line) (d : δ)
    (r : NmbsError × δ) (line' : Line) : Prop :=
  ∃ xs : List Exchange, xs.length ≤ 1 ∧ Outcome conf xs d line r.2 line'

theorem overheard_atMostOne :
    Overheard d line (AtMostOne conf line d) := by
  intro err bytes
  exact ⟨[], Nat.zero_le 1, (Outcome.refl conf d line).hear bytes⟩

theorem atMostOne_exchange
    {x : Exchange} {r : NmbsError × δ} {line' : Line} (rest : List UInt8)
    (htakes : x.Takes conf d r.2)
    (hheard : line'.heard = line.heard ++ (x.frame conf.crcCalc ++ rest))
    (hsent : line'.sent = line.sent ++ x.answer conf.crcCalc) :
    AtMostOne conf line d r line' := by
  exact ⟨[x], Nat.le_refl 1, .exchange htakes hheard hsent⟩

/-- A request whose check has been heard is served or overheard. -/
theorem ends_meetRequest
    (hwrong : ∀ bytes, Hazard conf old d bytes → wrong (line.hear bytes))
    {unit : UInt8} {r : Request} {pad : List UInt8}
    (hpad : pad.length = r.slack)
    (hsize : r.InLimit) :
    Ends anyLine wrong (meetRequest conf bt rt unit old r d)
      (line.hear (r.body unit ++ pad ++
        wireBytes (conf.crcCalc (r.body unit))))
      (AtMostOne conf line d) := by
  have hquiet := (@overheard_atMostOne δ conf line d).hear
    (r.body unit ++ pad ++ wireBytes (conf.crcCalc (r.body unit)))
  rw [meetRequest]
  by_cases hours : unit = nmbsBroadcastAddress ∨ unit = conf.addressRtu
  · rw [if_pos hours]
    dsimp only
    split
    · rename_i hserve
      cases r with
      | readRegisters address quantity =>
          cases hserve
      | writeRegister address value =>
          cases hserve
      | writeRegisters address quantity byteCount data =>
          cases hserve
      | writeRecords data =>
          have hpad : pad = [] := List.eq_nil_of_length_eq_zero hpad
          rw [hpad, List.append_nil]
          exact hwrong _ (.records hours hsize hserve)
    · rename_i reply d' hserve
      refine ends_deliver fun err => ?_
      exact atMostOne_exchange [] (.served _ hours hpad hserve)
        (by rw [List.append_nil]; rfl) rfl
  · rw [if_neg hours]
    cases r with
    | readRegisters address quantity =>
        exact ends_overhearRead hquiet
    | writeRegister address value =>
        exact ends_overhearWrite hquiet
    | writeRegisters address quantity byteCount data =>
        exact ends_overhearWrite hquiet
    | writeRecords data =>
        refine ends_overhearRecords hquiet fun h bytes hpast => ?_
        have hpad : pad = [] := List.eq_nil_of_length_eq_zero hpad
        rw [Line.hear_hear, hpad, List.append_nil, ← List.append_assoc]
        exact hwrong _ (.overheard hours hsize hpast)

theorem ends_checkRequest
    (hwrong : ∀ bytes, Hazard conf old d bytes → wrong (line.hear bytes))
    {unit : UInt8} {r : Request} {heard : List UInt8} (pad : List UInt8)
    (hpad : pad.length = r.slack) (hheard : r.body unit ++ pad = heard)
    (hsize : r.InLimit) :
    Ends anyLine wrong (checkRequest conf bt rt unit old r d)
      (line.hear heard) (AtMostOne conf line d) := by
  subst hheard
  refine ends_listenCheck ?_ (overheard_atMostOne.hear _)
  rw [Line.hear_hear]
  exact ends_meetRequest hwrong hpad hsize

/-- Behind the byte count of a register write. -/
theorem ends_hearRegisters
    (hwrong : ∀ bytes, Hazard conf old d bytes → wrong (line.hear bytes))
    {unit : UInt8} {bytes : List UInt8} (hbytes : bytes.length = 5) :
    Ends anyLine wrong
      (listen (([unit, 16] ++ bytes).getD 6 0).toNat bt
        ([unit, 16] ++ bytes) d fun h =>
          if h.getD 6 0 > 246 then
            .ret (.errorInvalidRequest, d)
          else
            checkRequest conf bt rt unit old
              (.writeRegisters (wordAt h 2) (wordAt h 4) (h.getD 6 0)
                ((h.drop 7).take (2 * ((h.getD 6 0).toNat / 2)))) d)
      (line.hear ([unit, 16] ++ bytes)) (AtMostOne conf line d) := by
  have hsize : msgBufSize = 260 := rfl
  have hquiet := (@overheard_atMostOne δ conf line d).hear
  have hlen : ([unit, 16] ++ bytes).length = 7 := by
    rw [List.length_append, hbytes]
    rfl
  refine ends_listen (fun data hdata hfit => ?_) (hquiet _)
    fun data hdata hlong => ?_
  · rw [Line.hear_hear, List.getD_append _ _ _ 6 (by omega),
      wordAt_append ([unit, 16] ++ bytes) _ (by omega),
      wordAt_append ([unit, 16] ++ bytes) _ (by omega)]
    split
    · exact (hquiet _).now _
    · have hdrop : ([unit, 16] ++ bytes ++ data).drop 7 = data := by
        rw [← hlen, List.drop_left]
      rw [hdrop]
      refine ends_checkRequest hwrong
        (data.drop (2 * ((([unit, 16] ++ bytes).getD 6 0).toNat / 2)))
        ?_ ?_ trivial
      · rw [List.length_drop, hdata, Request.slack]
        omega
      · rw [body_of_writeRegisters hbytes, List.append_assoc,
          List.take_append_drop]
  · rw [Line.hear_hear]
    match bytes, hbytes with
    | [a, b, c, e, n], _ =>
        exact hwrong _ (@Hazard.registers δ conf old d unit n [a, b, c, e]
          data rfl hdata (by rwa [hlen] at hlong))

/-- Behind the byte count of a file request. -/
theorem ends_hearRecords
    (hwrong : ∀ bytes, Hazard conf old d bytes → wrong (line.hear bytes))
    {unit : UInt8} {bytes : List UInt8} (hbytes : bytes.length = 1) :
    Ends anyLine wrong
      (if ([unit, 21] ++ bytes).getD 2 0 > 251 then
        .ret (.errorInvalidRequest, d)
      else
        listen (([unit, 21] ++ bytes).getD 2 0).toNat bt
          ([unit, 21] ++ bytes) d fun h =>
            checkRequest conf bt rt unit old (.writeRecords (h.drop 3)) d)
      (line.hear ([unit, 21] ++ bytes)) (AtMostOne conf line d) := by
  have hsize : msgBufSize = 260 := rfl
  have hquiet := (@overheard_atMostOne δ conf line d).hear
  obtain ⟨n, rfl⟩ := List.length_eq_one_iff.mp hbytes
  split
  · exact (hquiet _).now _
  · rename_i hsmall
    have hcount : n.toNat ≤ 251 := by
      exact Nat.le_of_not_lt hsmall
    refine ends_listen_inside (by simp [hsize]; omega)
      (fun data hdata => ?_) (hquiet _)
    rw [Line.hear_hear]
    refine ends_checkRequest hwrong [] rfl ?_ ?_
    · have hfield : UInt8.ofNat data.length = n := by
        rw [hdata]
        exact UInt8.ofNat_toNat
      simp [Request.body, Request.fc, Request.fields, hfield]
    · have hdrop : ([unit, 21] ++ [n] ++ data).drop 3 = data := rfl
      rw [hdrop]
      change data.length ≤ 251
      rw [hdata]
      exact hcount

theorem ends_hearRequest
    (hwrong : ∀ bytes, Hazard conf old d bytes → wrong (line.hear bytes))
    (unit fc : UInt8) :
    Ends anyLine wrong (hearRequest conf bt rt unit fc old d)
      (line.hear [unit, fc]) (AtMostOne conf line d) := by
  have hsize : msgBufSize = 260 := rfl
  have hquiet := (@overheard_atMostOne δ conf line d).hear
  by_cases hread : fc = 3
  · subst hread
    rw [hearRequest, if_pos rfl]
    refine ends_listen_inside (by simp [hsize]) (fun bytes hbytes => ?_)
      (hquiet _)
    have hbody : Request.body unit
        (.readRegisters (wordAt ([unit, 3] ++ bytes) 2)
          (wordAt ([unit, 3] ++ bytes) 4)) = [unit, 3] ++ bytes :=
      body_of_words hbytes
    rw [Line.hear_hear]
    exact ends_checkRequest hwrong [] rfl (by rw [List.append_nil, hbody])
      trivial
  · by_cases hwrite : fc = 6
    · subst hwrite
      rw [hearRequest, if_neg hread, if_pos rfl]
      refine ends_listen_inside (by simp [hsize]) (fun bytes hbytes => ?_)
        (hquiet _)
      have hbody : Request.body unit
          (.writeRegister (wordAt ([unit, 6] ++ bytes) 2)
            (wordAt ([unit, 6] ++ bytes) 4)) = [unit, 6] ++ bytes :=
        body_of_words hbytes
      rw [Line.hear_hear]
      exact ends_checkRequest hwrong [] rfl
        (by rw [List.append_nil, hbody]) trivial
    · by_cases hwrites : fc = 16
      · subst hwrites
        rw [hearRequest, if_neg hread, if_neg hwrite, if_pos rfl]
        refine ends_listen_inside (by simp [hsize]) (fun bytes hbytes => ?_)
          (hquiet _)
        rw [Line.hear_hear]
        exact ends_hearRegisters hwrong hbytes
      · by_cases hrecords : fc = 21
        · subst hrecords
          rw [hearRequest, if_neg hread, if_neg hwrite, if_neg hwrites,
            if_pos rfl]
          refine ends_listen_inside (by simp [hsize])
            (fun bytes hbytes => ?_) (hquiet _)
          rw [Line.hear_hear]
          exact ends_hearRecords hwrong hbytes
        · rw [hearRequest, if_neg hread, if_neg hwrite, if_neg hwrites,
            if_neg hrecords]
          refine ends_read fun a => ?_
          split
          · rename_i hours
            refine ends_deliver fun err => ?_
            refine atMostOne_exchange a.stored
              (x := .refused unit fc) (.refused hours ?_) ?_ rfl
            · rintro (h | h | h | h)
              · exact hread h
              · exact hwrite h
              · exact hwrites h
              · exact hrecords h
            · rw [Line.hear_hear]
              rfl
          · exact ((hquiet _).hear _).now _

theorem AtMostOne.hear
    {r : NmbsError × δ} {line' : Line} (h : AtMostOne conf line d r line')
    (bytes : List UInt8) :
    AtMostOne conf line d r (line'.hear bytes) := by
  rcases h with ⟨xs, hone, houtcome⟩
  exact ⟨xs, hone, houtcome.hear bytes⟩

/-- Dropping what is on the line is no exchange. -/
theorem ends_dropRest
    {r : NmbsError × δ} {line' : Line} (h : AtMostOne conf line d r line') :
    Ends anyLine wrong (dropRest r) line' (AtMostOne conf line d) := by
  rw [dropRest]
  split
  · exact ends_read fun a => h.hear a.stored
  · exact h

/-- The server on frames makes at most one exchange on any line. -/
theorem ends_frameServer
    (hwrong : ∀ bytes, Hazard conf old d bytes → wrong (line.hear bytes)) :
    Ends anyLine wrong (frameServer conf bt rt old d) line
      (AtMostOne conf line d) := by
  have hsize : msgBufSize = 260 := rfl
  have hquiet := @overheard_atMostOne δ conf line d
  rw [frameServer]
  refine ends_read fun a => ?_
  split
  · exact hquiet _ _
  · rename_i hfirst
    have hone := length_of_errorNone (not_not.mp hfirst)
    refine ends_listen_inside (by omega) (fun bytes hbytes => ?_)
      (hquiet.hear _)
    obtain ⟨unit, hunit⟩ := List.length_eq_one_iff.mp hone
    obtain ⟨fc, rfl⟩ := List.length_eq_one_iff.mp hbytes
    rw [hunit, Line.hear_hear]
    refine ends_bind.mpr ((ends_hearRequest hwrong unit fc).mono ?_
      fun _ => id)
    intro r line' hone
    exact ends_dropRest hone

end Requests

section Polls

variable {δ : Type}
variable {conf : NmbsConf δ}

/--
On any line a poll makes at most one exchange and leaves the timeouts as they
were, unless what it has heard is a hazard.
-/
theorem poll_contract
    (hrtu : conf.transport = .nmbsTransportRtu) (s : Server δ)
    (line : Line) :
    Leads anyLine
      (fun line' => ∃ bytes, Hazard conf s.msg.buf s.device bytes ∧
        line' = line.hear bytes)
      (nmbsServerPoll conf) s line fun _ s' line' =>
        s'.byteTimeoutMs = s.byteTimeoutMs ∧
          s'.readTimeoutMs = s.readTimeoutMs ∧
          ∃ xs : List Exchange, xs.length ≤ 1 ∧
            Outcome conf xs s.device line s'.device line' := by
  have hframes := @ends_frameServer δ conf s.byteTimeoutMs s.readTimeoutMs
    (fun line' => ∃ bytes, Hazard conf s.msg.buf s.device bytes ∧
      line' = line.hear bytes)
    line s.msg.buf s.device fun bytes hhazard => ⟨bytes, hhazard, rfl⟩
  refine ((poll_agrees hrtu s).ends hframes).mono ?_ fun _ => id
  rintro r line' ⟨r', hsame, xs, hone, houtcome⟩
  refine ⟨hsame.byteTimeout, hsame.readTimeout, xs, hone, ?_⟩
  rw [hsame.device]
  exact houtcome

/--
On any line any number of polls makes exchanges one after the other, at most one
in each poll, up to a hazard.
-/
theorem polls_outcome
    (hrtu : conf.transport = .nmbsTransportRtu) (s : Server δ)
    (line : Line) (n : Nat) :
    Leads anyLine
      (fun line' => ∃ xs d' mid old bytes,
        Outcome conf xs s.device line d' mid ∧
          Hazard conf old d' bytes ∧ line' = mid.hear bytes)
      (times (nmbsServerPoll conf) n) s line fun _ s' line' =>
        s'.byteTimeoutMs = s.byteTimeoutMs ∧
          s'.readTimeoutMs = s.readTimeoutMs ∧
          ∃ xs : List Exchange, xs.length ≤ n ∧
            Outcome conf xs s.device line s'.device line' := by
  have hrun := @leads_times _ _ _ _ _ anyLine
    (fun line' => ∃ xs d' mid old bytes,
      Outcome conf xs s.device line d' mid ∧
        Hazard conf old d' bytes ∧ line' = mid.hear bytes)
    (nmbsServerPoll conf)
    (fun errs s' line' =>
      s'.byteTimeoutMs = s.byteTimeoutMs ∧
        s'.readTimeoutMs = s.readTimeoutMs ∧
        ∃ xs : List Exchange, xs.length ≤ errs.length ∧
          Outcome conf xs s.device line s'.device line') ?_ [] s line
    ⟨rfl, rfl, [], Nat.zero_le 0, Outcome.refl conf s.device line⟩ n
  · refine hrun.imp ?_
    rintro errs s' line' ⟨rfl, hend⟩
    exact hend
  · rintro errs s' line' ⟨hbt, hrt, xs, hlen, houtcome⟩
    refine (poll_contract hrtu s' line').mono ?_ ?_
    · rintro err s'' line'' ⟨hbt', hrt', ys, hone, hnext⟩
      refine ⟨hbt'.trans hbt, hrt'.trans hrt, xs ++ ys, ?_,
        houtcome.trans hnext⟩
      rw [List.length_append, List.length_append, List.length_singleton]
      omega
    · rintro line'' ⟨bytes, hhazard, rfl⟩
      exact ⟨xs, s'.device, line', s'.msg.buf, bytes, houtcome, hhazard,
        rfl⟩

end Polls

end Port
end ModbusRtu
