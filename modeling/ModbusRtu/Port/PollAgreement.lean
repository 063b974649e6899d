import ModbusRtu.Port.RecordAgreement

/-!
# A poll agrees with the server on frames

The handlers receive the fields of their request, take them out of the buffer
and ask for the check. The bytes heard are then the message of the request that
the fields make up, so what the handlers do next is what the server on frames
does with this request. A poll is the reception of a header, the handler of the
function code, and the dropping of what is on the line behind an error.

The result is an agreement of the two dialogues: on every line, however its
calls are answered, a poll asks for the same bytes, sends the same bytes, ends
with the same error and device, goes wrong in the same situations, and leaves
the timeouts as they were.
-/

namespace ModbusRtu
namespace Port

open Kernel

section Handlers

variable {δ : Type}
variable {conf : NmbsConf δ}
variable {old : ByteMem} {unit : UInt8}
variable {bt rt : Int32} {d : δ}

/-- What recv_req_header finds out about the unit of a request. -/
abbrev requestAt (conf : NmbsConf δ) (old : ByteMem) (message : List UInt8)
    (place : Nat) (unit fc : UInt8) (bt rt : Int32) (d : δ) : Server δ :=
  serverAt old message place unit fc
    (decide (unit = nmbsBroadcastAddress))
    (decide ¬(unit = nmbsBroadcastAddress ∨ unit = conf.addressRtu))
    bt rt d

/-- Behind its check a request is answered or its response overheard. -/
theorem agrees_meetRequest
    {r : Request} {place : Nat}
    {answer response : ServerM δ NmbsError}
    (hanswer :
      Agrees (Same bt rt)
        (answer (requestAt conf old (withCheck conf.crcCalc (r.body unit))
          place unit r.fc bt rt d))
        (match serve conf.callbacks unit
            (staleBehind conf old (r.body unit)) r d with
          | none => .fault
          | some (reply, d') =>
              deliver conf.crcCalc bt unit r.fc reply d'))
    (hresponse :
      Agrees (Same bt rt)
        (response (requestAt conf old (withCheck conf.crcCalc (r.body unit))
          place unit r.fc bt rt d))
        (overhear conf.crcCalc bt rt unit
          (storeBytes old 0 (withCheck conf.crcCalc (r.body unit))) d r)) :
    Agrees (Same bt rt)
      ((inspect (fun s => s.msg.ignored) >>= fun ignored =>
          if ignored = true then response else answer)
        (requestAt conf old (withCheck conf.crcCalc (r.body unit)) place
          unit r.fc bt rt d))
      (meetRequest conf bt rt unit old r d) := by
  rw [run_inspect, meetRequest]
  by_cases hours : unit = nmbsBroadcastAddress ∨ unit = conf.addressRtu
  · rw [if_pos hours, if_neg (by simp [hours])]
    exact hanswer
  · rw [if_neg hours, if_pos (by simpa using hours)]
    exact hresponse

/-- Two halfwords behind a header make up the message they were read from. -/
theorem body_of_words
    {fc : UInt8} {bytes : List UInt8} (hbytes : bytes.length = 4) :
    unit :: fc ::
        (wireBytes (wordAt ([unit, fc] ++ bytes) 2) ++
          wireBytes (wordAt ([unit, fc] ++ bytes) 4)) =
      [unit, fc] ++ bytes := by
  match bytes, hbytes with
  | [a, b, c, e], _ =>
      simp [wordAt, wireBytes]

/-- The fields of a request to write registers make up its message. -/
theorem body_of_writeRegisters
    {bytes : List UInt8} (hbytes : bytes.length = 5) (data : List UInt8) :
    Request.body unit
        (.writeRegisters (wordAt ([unit, 16] ++ bytes) 2)
          (wordAt ([unit, 16] ++ bytes) 4)
          (([unit, 16] ++ bytes).getD 6 0) data) =
      [unit, 16] ++ bytes ++ data := by
  match bytes, hbytes with
  | [a, b, c, e, n], _ =>
      simp [Request.body, Request.fc, Request.fields, wordAt, wireBytes]

theorem wordAt_append
    (xs ys : List UInt8) {i : Nat} (hi : i + 1 < xs.length) :
    wordAt (xs ++ ys) i = wordAt xs i := by
  rw [wordAt, wordAt, List.getD_append _ _ _ _ (by omega),
    List.getD_append _ _ _ _ hi]

theorem agrees_handleReadHoldingRegisters
    (hrtu : conf.transport = .nmbsTransportRtu) :
    Agrees (Same bt rt)
      (handleReadHoldingRegisters conf
        (requestAt conf old [unit, 3] 2 unit 3 bt rt d))
      (hearRequest conf bt rt unit 3 old d) := by
  have hsize : msgBufSize = 260 := rfl
  rw [hearRequest, if_pos rfl]
  refine agrees_recv (by rfl) (by omega) fun bytes hbytes _ => ?_
  have hlen : ([unit, 3] ++ bytes).length = 6 := by
    rw [List.length_append, hbytes]
    rfl
  have hbody : Request.body unit
      (.readRegisters (wordAt ([unit, 3] ++ bytes) 2)
        (wordAt ([unit, 3] ++ bytes) 4)) = [unit, 3] ++ bytes :=
    body_of_words hbytes
  rw [run_get2 (by omega) (by omega), run_get2 (by omega) (by omega)]
  generalize wordAt ([unit, 3] ++ bytes) 2 = address at *
  generalize wordAt ([unit, 3] ++ bytes) 4 = quantity at *
  rw [checkRequest, hbody]
  refine agrees_recvMsgFooter hrtu hlen (by omega) ?_
  rw [← hbody]
  exact agrees_meetRequest
    (agrees_answerReadRegisters hrtu _ _ rfl)
    (agrees_recvReadRegistersRes hrtu _ rfl rfl rfl rfl)

theorem agrees_handleWriteSingleRegister
    (hrtu : conf.transport = .nmbsTransportRtu) :
    Agrees (Same bt rt)
      (handleWriteSingleRegister conf
        (requestAt conf old [unit, 6] 2 unit 6 bt rt d))
      (hearRequest conf bt rt unit 6 old d) := by
  have hsize : msgBufSize = 260 := rfl
  rw [hearRequest, if_neg (by decide), if_pos rfl]
  refine agrees_recv (by rfl) (by omega) fun bytes hbytes _ => ?_
  have hlen : ([unit, 6] ++ bytes).length = 6 := by
    rw [List.length_append, hbytes]
    rfl
  have hbody : Request.body unit
      (.writeRegister (wordAt ([unit, 6] ++ bytes) 2)
        (wordAt ([unit, 6] ++ bytes) 4)) = [unit, 6] ++ bytes :=
    body_of_words hbytes
  rw [run_get2 (by omega) (by omega), run_get2 (by omega) (by omega)]
  generalize wordAt ([unit, 6] ++ bytes) 2 = address at *
  generalize wordAt ([unit, 6] ++ bytes) 4 = value at *
  rw [checkRequest, hbody]
  refine agrees_recvMsgFooter hrtu hlen (by omega) ?_
  rw [← hbody]
  exact agrees_meetRequest
    (agrees_answerWriteSingleRegister hrtu _ _ rfl)
    (agrees_recvWriteRes hrtu _ _ rfl rfl rfl rfl)

theorem agrees_handleWriteMultipleRegisters
    (hrtu : conf.transport = .nmbsTransportRtu) :
    Agrees (Same bt rt)
      (handleWriteMultipleRegisters conf
        (requestAt conf old [unit, 16] 2 unit 16 bt rt d))
      (hearRequest conf bt rt unit 16 old d) := by
  have hsize : msgBufSize = 260 := rfl
  rw [hearRequest, if_neg (by decide), if_neg (by decide), if_pos rfl]
  refine agrees_recv (by rfl) (by omega) fun bytes hbytes _ => ?_
  have hlen : ([unit, 16] ++ bytes).length = 7 := by
    rw [List.length_append, hbytes]
    rfl
  rw [run_get2 (by omega) (by omega), run_get2 (by omega) (by omega),
    run_get1 (by omega) (by omega)]
  refine agrees_recv hlen (by omega) fun data hdata _ => ?_
  have hall : ([unit, 16] ++ bytes ++ data).length =
      7 + (([unit, 16] ++ bytes).getD 6 0).toNat := by
    rw [List.length_append, hlen, hdata]
  have hbody := @body_of_writeRegisters unit bytes hbytes
    (data.take (2 * ((([unit, 16] ++ bytes).getD 6 0).toNat / 2)))
  rw [List.getD_append ([unit, 16] ++ bytes) _ _ 6 (by omega),
    wordAt_append ([unit, 16] ++ bytes) data (by omega),
    wordAt_append ([unit, 16] ++ bytes) data (by omega)]
  generalize wordAt ([unit, 16] ++ bytes) 2 = address at *
  generalize wordAt ([unit, 16] ++ bytes) 4 = quantity at *
  generalize ([unit, 16] ++ bytes).getD 6 0 = n at *
  generalize [unit, 16] ++ bytes = message at *
  by_cases hlarge : n > 246
  · rw [if_pos hlarge, if_pos hlarge]
    exact .ret ⟨rfl, rfl, rfl, rfl⟩
  · have hmost : n.toNat ≤ 246 := by
      exact Nat.le_of_not_lt hlarge
    have hdrop : (message ++ data).drop 7 = data := by
      rw [← hlen, List.drop_left]
    have hfront : (message ++ data).take (7 + 2 * (n.toNat / 2)) =
        message ++ data.take (2 * (n.toNat / 2)) := by
      rw [← hlen, List.take_length_add_append]
    rw [if_neg hlarge, if_neg hlarge, run_getWords (by omega) (by omega),
      serverAt_take (by omega), checkRequest, hdrop, hfront, hbody]
    refine agrees_recvMsgFooter hrtu
      (by rw [← hfront, List.length_take]; omega) (by omega) ?_
    rw [← hbody]
    exact agrees_meetRequest
      (agrees_answerWriteMultipleRegisters hrtu _ _ _ _ rfl)
      (agrees_recvWriteRes hrtu _ _ rfl rfl rfl rfl)

theorem agrees_handleWriteFileRecord
    (hrtu : conf.transport = .nmbsTransportRtu) :
    Agrees (Same bt rt)
      (handleWriteFileRecord conf
        (requestAt conf old [unit, 21] 2 unit 21 bt rt d))
      (hearRequest conf bt rt unit 21 old d) := by
  have hsize : msgBufSize = 260 := rfl
  rw [hearRequest, if_neg (by decide), if_neg (by decide),
    if_neg (by decide), if_pos rfl]
  refine agrees_recv (by rfl) (by omega) fun bytes hbytes _ => ?_
  obtain ⟨n, rfl⟩ := List.length_eq_one_iff.mp hbytes
  have hlen : ([unit, 21] ++ [n]).length = 3 := rfl
  have hfield : ([unit, 21] ++ [n]).getD 2 0 = n := rfl
  rw [run_get1 (by omega) (by omega), hfield]
  by_cases hlarge : n > 251
  · rw [if_pos hlarge, if_pos hlarge]
    exact .ret ⟨rfl, rfl, rfl, rfl⟩
  · have hmost : n.toNat ≤ 251 := by
      exact Nat.le_of_not_lt hlarge
    rw [if_neg hlarge, if_neg hlarge]
    refine agrees_recv hlen (by omega) fun data hdata _ => ?_
    have hall : ([unit, 21] ++ [n] ++ data).length = 3 + n.toNat := by
      rw [List.length_append, hlen, hdata]
    have hdrop : ([unit, 21] ++ [n] ++ data).drop 3 = data := rfl
    have hbody : Request.body unit (.writeRecords data) =
        [unit, 21] ++ [n] ++ data := by
      rw [Request.body, Request.fields, hdata, UInt8.ofNat_toNat]
      rfl
    rw [run_inspect, run_discardN (by omega), hdrop, checkRequest, hbody]
    refine agrees_recvMsgFooter hrtu hall (by omega) ?_
    rw [← hbody]
    refine agrees_meetRequest ?_
      (agrees_recvWriteFileRecordRes hrtu rfl rfl rfl rfl)
    rw [← hdata]
    exact agrees_answerWriteFileRecord hrtu (by omega) rfl

end Handlers

section Poll

variable {δ : Type} {β : Type}
variable {conf : NmbsConf δ}
variable {bt rt : Int32}

/-- What is on the line goes to the start of the buffer. -/
theorem run_flush (f : PUnit → ServerM δ β) (s : Server δ) :
    (Server.flush >>= f) s =
      .ask (LineCall.read msgBufSize 0) fun a =>
        f ⟨⟩ { s with
          msg := { s.msg with buf := storeBytes s.msg.buf 0 a.stored } } := by
  rw [Server.flush, run_bind_assoc, run_platformRead]
  refine congrArg (Dialogue.ask _) (funext fun a => ?_)
  have hle := a.length_stored_le
  rw [run_storeAt (Or.inr (by omega))]

/-- The handlers do what the server on frames does behind the header. -/
theorem agrees_handleReqFc
    (hrtu : conf.transport = .nmbsTransportRtu)
    (old : ByteMem) (unit fc : UInt8) (d : δ) :
    Agrees (Same bt rt)
      (handleReqFc conf (requestAt conf old [unit, fc] 2 unit fc bt rt d))
      (hearRequest conf bt rt unit fc old d) := by
  rw [handleReqFc, run_inspect]
  by_cases hread : fc = 3
  · subst hread
    exact agrees_handleReadHoldingRegisters hrtu
  · by_cases hwrite : fc = 6
    · subst hwrite
      exact agrees_handleWriteSingleRegister hrtu
    · by_cases hwrites : fc = 16
      · subst hwrites
        exact agrees_handleWriteMultipleRegisters hrtu
      · by_cases hrecords : fc = 21
        · subst hrecords
          exact agrees_handleWriteFileRecord hrtu
        · rw [hearRequest]
          simp only [hread, hwrite, hwrites, hrecords, if_false]
          rw [run_flush]
          refine .ask fun a => ?_
          rw [run_inspect]
          by_cases hours :
              unit = nmbsBroadcastAddress ∨ unit = conf.addressRtu
          · have hsend :=
              @agrees_sendExceptionMsg δ conf
                (storeBytes (storeBytes old 0 [unit, fc]) 0 a.stored) [] 2
                unit fc (decide (unit = nmbsBroadcastAddress))
                (decide ¬(unit = nmbsBroadcastAddress ∨
                  unit = conf.addressRtu)) bt rt d hrtu
                .exceptionIllegalFunction rfl
            rw [serverAt, storeBytes_nil] at hsend
            rw [if_pos hours, if_neg (by simp [hours])]
            exact hsend
          · rw [if_neg hours, if_pos (by simpa using hours)]
            exact .ret ⟨rfl, rfl, rfl, rfl⟩

/-- The header of a request: whose request it is. -/
theorem run_recvReqHeader
    (hrtu : conf.transport = .nmbsTransportRtu)
    (f : NmbsError × Bool → ServerM δ β) {s : Server δ}
    (hbt : s.byteTimeoutMs = bt) (hrt : s.readTimeoutMs = rt) :
    (recvReqHeader conf >>= f) s =
      .ask (LineCall.read 1 rt) fun a =>
        if transferStatus a.ret 1 ≠ .errorNone then
          f (transferStatus a.ret 1, false)
            (serverAt s.msg.buf a.stored 0 0 0 false false bt rt s.device)
        else
          .ask (LineCall.read 1 bt) fun b =>
            if transferStatus b.ret 1 ≠ .errorNone then
              f (transferStatus b.ret 1, true)
                (serverAt s.msg.buf (a.stored ++ b.stored) 1
                  (a.stored.getD 0 0) 0 false false bt rt s.device)
            else
              f (.errorNone, true)
                (requestAt conf s.msg.buf (a.stored ++ b.stored) 2
                  (a.stored.getD 0 0) ((a.stored ++ b.stored).getD 1 0)
                  bt rt s.device) := by
  rw [recvReqHeader, run_bind_assoc, run_recvMsgHeader hrtu _ hbt hrt]
  refine congrArg (Dialogue.ask _) (funext fun a => ?_)
  by_cases hfirst : transferStatus a.ret 1 = .errorNone
  · rw [if_neg (not_not.mpr hfirst), if_neg (not_not.mpr hfirst)]
    refine congrArg (Dialogue.ask _) (funext fun b => ?_)
    by_cases hsecond : transferStatus b.ret 1 = .errorNone
    · rw [if_neg (not_not.mpr hsecond), if_neg (not_not.mpr hsecond)]
      simp only [ne_eq, not_true_eq_false, if_false, hrtu, run_bind_assoc,
        run_modifyMsg, run_pure_bind]
      congr 1
      generalize a.stored.getD 0 0 = unit
      by_cases hbroadcast : unit = nmbsBroadcastAddress
      · simp [requestAt, hbroadcast]
      · by_cases hours : unit = conf.addressRtu
        · subst hours
          simp [requestAt, hbroadcast]
        · simp [requestAt, hbroadcast, hours]
    · rw [if_pos hsecond, if_pos hsecond]
      simp only [ne_eq, hsecond, not_false_eq_true, if_true, run_pure_bind]
  · rw [if_pos hfirst, if_pos hfirst]
    simp only [ne_eq, hfirst, not_false_eq_true, if_true, run_pure_bind]

/--
On every line a poll does what the server on frames does, and leaves the
timeouts as they were.
-/
theorem poll_agrees
    (hrtu : conf.transport = .nmbsTransportRtu) (s : Server δ) :
    Agrees (Same s.byteTimeoutMs s.readTimeoutMs) (nmbsServerPoll conf s)
      (frameServer conf s.byteTimeoutMs s.readTimeoutMs s.msg.buf
        s.device) := by
  have hsize : msgBufSize = 260 := rfl
  rw [nmbsServerPoll, msgStateReset, run_modifyMsg,
    run_recvReqHeader hrtu _ rfl rfl, frameServer]
  refine .ask fun a => ?_
  by_cases hfirst : transferStatus a.ret 1 = .errorNone
  · have hone := length_of_errorNone hfirst
    rw [if_neg (not_not.mpr hfirst), if_neg (not_not.mpr hfirst),
      listen_inside (by omega)]
    refine .ask fun b => ?_
    by_cases hsecond : transferStatus b.ret 1 = .errorNone
    · obtain ⟨unit, hunit⟩ := List.length_eq_one_iff.mp hone
      obtain ⟨fc, hfc⟩ :=
        List.length_eq_one_iff.mp (length_of_errorNone hsecond)
      rw [if_neg (not_not.mpr hsecond), if_pos hsecond, hunit, hfc]
      simp only [ne_eq, not_true_eq_false, if_false]
      refine (agrees_handleReqFc hrtu s.msg.buf unit fc s.device).bind
        fun r r' hsame => ?_
      obtain ⟨err, s'⟩ := r
      obtain ⟨err', d'⟩ := r'
      rcases hsame with ⟨herror, hdevice, hbt, hrt⟩
      dsimp only at herror hdevice hbt hrt ⊢
      subst herror
      rw [dropRest]
      by_cases hnone : err = .errorNone
      · rw [if_neg (not_not.mpr hnone), if_neg (by simp [hnone]), hnone]
        exact .ret ⟨rfl, hdevice, hbt, hrt⟩
      · rw [if_pos hnone]
        by_cases htimeout : err = .errorTimeout
        · rw [if_neg (not_not.mpr htimeout), if_neg (by simp [htimeout])]
          exact .ret ⟨rfl, hdevice, hbt, hrt⟩
        · rw [if_pos htimeout, if_pos ⟨hnone, htimeout⟩, run_flush]
          exact .ask fun c => .ret ⟨rfl, hdevice, hbt, hrt⟩
    · rw [if_pos hsecond, if_neg hsecond]
      simp only [ne_eq, hsecond, not_false_eq_true, if_true,
        Bool.true_eq_false, false_and, if_false]
      exact .ret ⟨rfl, rfl, rfl, rfl⟩
  · rw [if_pos hfirst, if_pos hfirst]
    simp only [ne_eq, hfirst, not_false_eq_true, if_true, true_and]
    split
    · exact .ret ⟨rfl, rfl, rfl, rfl⟩
    · exact .ret ⟨rfl, rfl, rfl, rfl⟩

/--
Refinement: a poll leads to a condition on its error, its device and the line
exactly if the server on frames does, on every line and in every situation in
which either goes wrong. The timeouts stay as they were.
-/
theorem poll_refines_frameServer
    (hrtu : conf.transport = .nmbsTransportRtu) (s : Server δ)
    {ε : Type} (env : Environment LineCall LineAnswer ε) (wrong : ε → Prop)
    (e : ε) (post : NmbsError → δ → ε → Prop) :
    Leads env wrong (nmbsServerPoll conf) s e (fun err s' e' =>
        s'.byteTimeoutMs = s.byteTimeoutMs ∧
          s'.readTimeoutMs = s.readTimeoutMs ∧ post err s'.device e') ↔
      Ends env wrong
        (frameServer conf s.byteTimeoutMs s.readTimeoutMs s.msg.buf s.device)
        e fun r e' => post r.1 r.2 e' := by
  have hagree := poll_agrees hrtu s
  constructor
  · intro hpoll
    refine (hagree.ends_of_ends hpoll).mono ?_ fun _ => id
    rintro ⟨err, d'⟩ e' ⟨⟨err', s'⟩, hsame, -, -, hpost⟩
    obtain rfl : err' = err := hsame.error
    obtain rfl : s'.device = d' := hsame.device
    exact hpost
  · intro hframes
    refine (hagree.ends hframes).mono ?_ fun _ => id
    rintro ⟨err, s'⟩ e' ⟨⟨err', d'⟩, hsame, hpost⟩
    obtain rfl : err = err' := hsame.error
    obtain rfl : s'.device = d' := hsame.device
    exact ⟨hsame.byteTimeout, hsame.readTimeout, hpost⟩

/-- An instance without callbacks. -/
def bareConf : NmbsConf Unit where
  transport := .nmbsTransportRtu
  crcCalc := nmbsCrcCalc
  addressRtu := 1
  callbacks := ⟨none, none, none, none⟩

/-- Its message buffer is empty and its timeouts are those of the port. -/
def bareServer : Server Unit where
  msg := ⟨fun _ => 0, 0, 0, 0, 0, false, false, false⟩
  byteTimeoutMs := 100
  readTimeoutMs := 200
  device := ()

/-- An instance whose device is one register, which a write sets. -/
def cellConf : NmbsConf UInt16 where
  transport := .nmbsTransportRtu
  crcCalc := nmbsCrcCalc
  addressRtu := 1
  callbacks :=
    { readHoldingRegisters := none
      writeSingleRegister := some fun _ _ value _ => (.errorNone, value)
      writeMultipleRegisters := none
      writeFileRecord := none }

/-- Its register is zero. -/
def cellServer : Server UInt16 where
  msg := ⟨fun _ => 0, 0, 0, 0, 0, false, false, false⟩
  byteTimeoutMs := 100
  readTimeoutMs := 200
  device := 0

/-- The answer that stores the bytes there are, up to the number asked for. -/
def answerOf (n : Nat) (bytes : List UInt8) : ReadAnswer n where
  ret := (bytes.take n).length
  stored := bytes.take n
  length_stored_le := List.length_take_le n bytes
  ret_eq := Or.inl rfl

/-- A line that has bytes to be read and takes what is written. -/
def fullLine : List UInt8 × List (List UInt8) → (q : LineCall) →
    LineAnswer q × (List UInt8 × List (List UInt8))
  | (bytes, sent), .read n _ => (answerOf n bytes, (bytes.drop n, sent))
  | (bytes, sent), .write frame _ =>
      ((frame.length : Int), (bytes, sent ++ [frame]))

/-- A request to write the register is heard, served and answered. -/
theorem poll_answers_write :
    Leads (answering fullLine) (fun _ => False) (nmbsServerPoll cellConf)
      cellServer (withCheck nmbsCrcCalc [1, 6, 0, 0, 0, 42], [])
      fun err s' line =>
        s'.byteTimeoutMs = 100 ∧ s'.readTimeoutMs = 200 ∧
          err = .errorNone ∧ s'.device = 42 ∧
            line = ([], [withCheck nmbsCrcCalc [1, 6, 0, 0, 0, 42]]) := by
  refine (poll_refines_frameServer rfl cellServer (answering fullLine)
    (fun _ => False) (withCheck nmbsCrcCalc [1, 6, 0, 0, 0, 42], [])
    fun err d line => err = .errorNone ∧ d = 42 ∧
      line = ([], [withCheck nmbsCrcCalc [1, 6, 0, 0, 0, 42]])).mpr ?_
  have hrun : runDialogue fullLine
      (frameServer cellConf cellServer.byteTimeoutMs
        cellServer.readTimeoutMs cellServer.msg.buf cellServer.device)
      (withCheck nmbsCrcCalc [1, 6, 0, 0, 0, 42], []) =
        (some (.errorNone, 42),
          ([], [withCheck nmbsCrcCalc [1, 6, 0, 0, 0, 42]])) := by
    decide +kernel
  exact ends_of_run hrun ⟨rfl, rfl, rfl⟩

end Poll

end Port
end ModbusRtu
