import ModbusRtu.Port.LineContract
import ModbusRtu.Port.RequestFormat

/-!
# A conversation on the bus

On the bus the bytes come in bursts with pauses between them. A call that is
ready to wait through a pause finds the next burst, and every other call finds
what is left of the current one. The server waits through a pause for the first
byte of a frame and not for the others: a pause is longer than the byte timeout
and no longer than the read timeout. A longer silence is one idle poll for every
read timeout of it, and an idle poll is a burst without bytes.

A transaction is what a master makes of one or two bursts: a request to this
unit or to all units, a request to another unit with its response or exception
behind it, a request with a wrong check, or a request that breaks off. One that
breaks off before its first byte is an idle poll.

The result is about any list of transactions: one poll for each of them returns
its status, sends the replies to the requests to this unit in their order, and
leaves the device as the requests to this unit and to all units make it. No
transaction disturbs a later one. A poll goes wrong exactly where the service
of a request is undefined.
-/

namespace ModbusRtu
namespace Port

open Kernel

section Bursts

/-- The burst that is being heard, those to come, and the frames sent. -/
structure BurstLine where
  current : List UInt8
  coming : List (List UInt8)
  sent : List (List UInt8)

/-- A call that waits through a pause finds the next burst. -/
def BurstLine.wait (pause t : Int32) (line : BurstLine) : BurstLine :=
  match line.current, line.coming with
  | [], burst :: coming =>
      if pause ≤ t then
        { line with current := burst, coming := coming }
      else
        line
  | _, _ => line

/-- How the line answers: reads from the current burst, writes succeed. -/
def respond (pause : Int32) :
    BurstLine → (q : LineCall) → LineAnswer q × BurstLine
  | line, .read n t =>
      (answerOf n (line.wait pause t).current,
        { line.wait pause t with
          current := (line.wait pause t).current.drop n })
  | line, .write bytes _ =>
      ((bytes.length : Int), { line with sent := line.sent ++ [bytes] })

end Bursts

section Reading

variable {δ : Type}
variable {crcCalc : List UInt8 → UInt16}
variable {pause bt rt t : Int32}
variable {wrong : BurstLine → Prop}
variable {bytes rest heard : List UInt8}
variable {coming sent : List (List UInt8)} {d : δ}
variable {post : NmbsError × δ → BurstLine → Prop}

theorem wait_of_lt {line : BurstLine} (ht : t < pause) :
    line.wait pause t = line := by
  have hle : ¬ pause ≤ t := Int32.not_le.mpr ht
  rw [BurstLine.wait]
  split
  · rw [if_neg hle]
  · rfl

theorem wait_of_cons {b : UInt8} :
    BurstLine.wait pause t ⟨b :: rest, coming, sent⟩ =
      ⟨b :: rest, coming, sent⟩ := by
  rfl

theorem transferStatus_self (n : Nat) : transferStatus n n = .errorNone := by
  rw [transferStatus, if_pos rfl]

theorem transferStatus_short {m n : Nat} (h : m < n) :
    transferStatus m n = .errorTimeout := by
  rw [transferStatus, if_neg (by omega), if_pos (by omega),
    if_neg (by omega)]

/-- Bytes that are there are heard. -/
theorem ends_hear
    {n : Nat} {next : List UInt8 → Conduct δ} (bytes : List UInt8)
    (hwait : BurstLine.wait pause t ⟨bytes ++ rest, coming, sent⟩ =
      ⟨bytes ++ rest, coming, sent⟩)
    (hlen : bytes.length = n) (hfit : heard.length + n ≤ msgBufSize) :
    Ends (answering (respond pause)) wrong (listen n t heard d next)
        ⟨bytes ++ rest, coming, sent⟩ post ↔
      Ends (answering (respond pause)) wrong (next (heard ++ bytes))
        ⟨rest, coming, sent⟩ post := by
  subst hlen
  rw [listen_inside hfit, ends_answering_ask]
  simp only [respond, hwait, answerOf, List.take_left', List.drop_left',
    transferStatus_self, if_true]

/-- Where a burst breaks off the reception times out. -/
theorem ends_hear_short
    {n : Nat} {next : List UInt8 → Conduct δ}
    (ht : t < pause) (hshort : bytes.length < n)
    (hfit : heard.length + n ≤ msgBufSize) :
    Ends (answering (respond pause)) wrong (listen n t heard d next)
        ⟨bytes, coming, sent⟩ post ↔
      post (.errorTimeout, d) ⟨[], coming, sent⟩ := by
  rw [listen_inside hfit, ends_answering_ask]
  simp only [respond, wait_of_lt ht, answerOf,
    List.take_of_length_le (Nat.le_of_lt hshort),
    List.drop_of_length_le (Nat.le_of_lt hshort),
    transferStatus_short hshort, reduceCtorEq, if_false]
  rfl

theorem ends_hearCheck
    {x y : UInt8} {next : Conduct δ} (ht : bt < pause) :
    Ends (answering (respond pause)) wrong
        (listenCheck crcCalc bt heard d next)
        ⟨x :: y :: rest, coming, sent⟩ post ↔
      if [x, y] = wireBytes (crcCalc heard) then
        Ends (answering (respond pause)) wrong next
          ⟨rest, coming, sent⟩ post
      else
        post (.errorCrc, d) ⟨rest, coming, sent⟩ := by
  rw [listenCheck, ends_answering_ask]
  have htaken : (x :: y :: rest).take 2 = [x, y] := rfl
  have hleft : (x :: y :: rest).drop 2 = rest := rfl
  have hfull : transferStatus ([x, y] : List UInt8).length 2 =
      .errorNone := transferStatus_self 2
  simp only [respond, wait_of_lt ht, answerOf, htaken, hleft, hfull, ne_eq,
    not_true_eq_false, if_false]
  split <;> rfl

/-- The right check is heard at the end of a burst. -/
theorem ends_hearCheck_right
    {next : Conduct δ} (ht : bt < pause)
    (hbytes : bytes = wireBytes (crcCalc heard)) :
    Ends (answering (respond pause)) wrong
        (listenCheck crcCalc bt heard d next) ⟨bytes, coming, sent⟩ post ↔
      Ends (answering (respond pause)) wrong next ⟨[], coming, sent⟩
        post := by
  subst hbytes
  refine (ends_hearCheck ht).trans ?_
  rw [if_pos (by rfl)]

theorem ends_hearCheck_short
    {next : Conduct δ} (ht : bt < pause) (hshort : bytes.length < 2) :
    Ends (answering (respond pause)) wrong
        (listenCheck crcCalc bt heard d next) ⟨bytes, coming, sent⟩ post ↔
      post (.errorTimeout, d) ⟨[], coming, sent⟩ := by
  rw [listenCheck, ends_answering_ask]
  simp only [respond, wait_of_lt ht, answerOf,
    List.take_of_length_le (Nat.le_of_lt hshort),
    List.drop_of_length_le (Nat.le_of_lt hshort),
    transferStatus_short hshort, reduceCtorEq, ne_eq, not_false_eq_true,
    if_true]
  rfl

/-- A reply is sent, unless all units were asked. -/
theorem ends_say {unit fc : UInt8} {reply : Reply} :
    Ends (answering (respond pause)) wrong
        (deliver crcCalc bt unit fc reply d) ⟨rest, coming, sent⟩ post ↔
      post (.errorNone, d)
        ⟨rest, coming, sent ++ answerFrames crcCalc unit fc reply⟩ := by
  rw [deliver, answerFrames]
  split
  · rw [List.append_nil]
    rfl
  · rw [ends_answering_ask]
    simp only [respond, transferStatus_self]
    rfl

/-- At the end of a burst there is nothing to drop. -/
theorem ends_dropNothing
    (hpause : 0 < pause) {r : NmbsError × δ} :
    Ends (answering (respond pause)) wrong (dropRest r)
        ⟨[], coming, sent⟩ post ↔
      post r ⟨[], coming, sent⟩ := by
  rw [dropRest]
  split
  · rw [ends_answering_ask]
    simp only [respond, wait_of_lt hpause, List.drop_nil]
    rfl
  · rfl

end Reading

section Requests

variable {δ : Type}
variable {conf : NmbsConf δ}
variable {pause bt rt : Int32}
variable {wrong : BurstLine → Prop}
variable {rest : List UInt8} {coming sent : List (List UInt8)}
variable {old : ByteMem} {unit : UInt8} {r : Request} {d : δ}
variable {post : NmbsError × δ → BurstLine → Prop}

/-- The fields of a well-formed request are heard. -/
theorem ends_hearFields
    (ht : bt < pause) (hr : r.WellFormed) :
    Ends (answering (respond pause)) wrong
        (hearRequest conf bt rt unit r.fc old d)
        ⟨r.fields ++ rest, coming, sent⟩ post ↔
      Ends (answering (respond pause)) wrong
        (checkRequest conf bt rt unit old r d)
        ⟨rest, coming, sent⟩ post := by
  have hsize : msgBufSize = 260 := rfl
  cases r with
  | readRegisters address quantity =>
      rw [Request.fc, hearRequest, if_pos rfl]
      refine (ends_hear (Request.fields (.readRegisters address quantity))
        (wait_of_lt ht) rfl (by simp [hsize, Request.fields])).trans ?_
      simp [wordAt, Request.fields, wireBytes, halfword_hiByte_loByte]
  | writeRegister address value =>
      rw [Request.fc, hearRequest, if_neg (by decide), if_pos rfl]
      refine (ends_hear (Request.fields (.writeRegister address value))
        (wait_of_lt ht) rfl (by simp [hsize, Request.fields])).trans ?_
      simp [wordAt, Request.fields, wireBytes, halfword_hiByte_loByte]
  | writeRegisters address quantity byteCount data =>
      rcases hr with ⟨hcount, heven, hsmall⟩
      have hfields : Request.fields
          (.writeRegisters address quantity byteCount data) ++ rest =
          (wireBytes address ++ wireBytes quantity ++ [byteCount]) ++
            (data ++ rest) := by
        simp [Request.fields]
      have hlarge : ¬ byteCount > 246 := by
        rw [gt_iff_lt, UInt8.lt_iff_toNat_lt, ← hcount]
        exact Nat.not_lt.mpr hsmall
      have htake : data.take (2 * (byteCount.toNat / 2)) = data := by
        rw [List.take_of_length_le (by omega)]
      rw [Request.fc, hearRequest, if_neg (by decide), if_neg (by decide),
        if_pos rfl, hfields]
      refine (ends_hear
        (wireBytes address ++ wireBytes quantity ++ [byteCount])
        (wait_of_lt ht) rfl (by simp [hsize])).trans ?_
      refine (ends_hear data (wait_of_lt ht) ?_ ?_).trans ?_
      · rw [hcount]
        simp [wireBytes]
      · simp [hsize, wireBytes]
        omega
      · simp [wordAt, wireBytes, halfword_hiByte_loByte, hlarge, htake]
  | writeRecords data =>
      have hcount : (UInt8.ofNat data.length).toNat = data.length := by
        have hsmall : data.length ≤ 251 := hr
        rw [UInt8.toNat_ofNat']
        omega
      have hlarge : ¬ UInt8.ofNat data.length > 251 := by
        rw [gt_iff_lt, UInt8.lt_iff_toNat_lt, hcount]
        exact Nat.not_lt.mpr hr
      have hfields : Request.fields (.writeRecords data) ++ rest =
          [UInt8.ofNat data.length] ++ (data ++ rest) := by
        simp [Request.fields]
      rw [Request.fc, hearRequest, if_neg (by decide), if_neg (by decide),
        if_neg (by decide), if_pos rfl, hfields]
      refine (ends_hear [UInt8.ofNat data.length]
        (wait_of_lt ht) rfl (by simp [hsize])).trans ?_
      simp only [List.cons_append, List.nil_append, List.getD_cons_succ,
        List.getD_cons_zero, if_neg hlarge]
      refine (ends_hear data (wait_of_lt ht) hcount.symm ?_).trans ?_
      · have hsmall : data.length ≤ 251 := hr
        simp [hsize, hcount]
        omega
      · simp

/-- Fields that break off time out. -/
theorem ends_cutFields
    (ht : bt < pause) (hr : r.WellFormed) {n : Nat}
    (hn : n < r.fields.length) :
    Ends (answering (respond pause)) wrong
        (hearRequest conf bt rt unit r.fc old d)
        ⟨r.fields.take n, coming, sent⟩ post ↔
      post (.errorTimeout, d) ⟨[], coming, sent⟩ := by
  have hsize : msgBufSize = 260 := rfl
  cases r with
  | readRegisters address quantity =>
      have hfour : n < 4 := hn
      rw [Request.fc, hearRequest, if_pos rfl]
      exact ends_hear_short ht
        (by rw [List.length_take]; omega) (by simp [hsize])
  | writeRegister address value =>
      have hfour : n < 4 := hn
      rw [Request.fc, hearRequest, if_neg (by decide), if_pos rfl]
      exact ends_hear_short ht
        (by rw [List.length_take]; omega) (by simp [hsize])
  | writeRegisters address quantity byteCount data =>
      rcases hr with ⟨hcount, heven, hsmall⟩
      have hlen : n < 5 + data.length := by
        simp [Request.fields] at hn
        omega
      rw [Request.fc, hearRequest, if_neg (by decide), if_neg (by decide),
        if_pos rfl]
      by_cases hfive : n < 5
      · exact ends_hear_short ht
          (by rw [List.length_take]; omega) (by simp [hsize])
      · have hfields : (Request.fields
            (.writeRegisters address quantity byteCount data)).take n =
            (wireBytes address ++ wireBytes quantity ++ [byteCount]) ++
              data.take (n - 5) := by
          obtain ⟨k, rfl⟩ : ∃ k, n = 5 + k := ⟨n - 5, by omega⟩
          simp [Request.fields, wireBytes, Nat.add_comm 5 k]
        rw [hfields]
        refine (ends_hear
          (wireBytes address ++ wireBytes quantity ++ [byteCount])
          (wait_of_lt ht) rfl (by simp [hsize])).trans ?_
        refine ends_hear_short ht ?_ ?_
        · simp [wireBytes]
          omega
        · simp [hsize, wireBytes]
          omega
  | writeRecords data =>
      have hsmall : data.length ≤ 251 := hr
      have hcount : (UInt8.ofNat data.length).toNat = data.length := by
        rw [UInt8.toNat_ofNat']
        omega
      have hlarge : ¬ UInt8.ofNat data.length > 251 := by
        rw [gt_iff_lt, UInt8.lt_iff_toNat_lt, hcount]
        exact Nat.not_lt.mpr hr
      rw [Request.fc, hearRequest, if_neg (by decide), if_neg (by decide),
        if_neg (by decide), if_pos rfl]
      cases n with
      | zero =>
          exact ends_hear_short ht (by simp) (by simp [hsize])
      | succ n =>
          have hn : n < data.length := by
            simpa [Request.fields] using hn
          have hfields : (Request.fields (.writeRecords data)).take (n + 1) =
              [UInt8.ofNat data.length] ++ data.take n := by
            simp [Request.fields]
          rw [hfields]
          refine (ends_hear [UInt8.ofNat data.length]
            (wait_of_lt ht) rfl (by simp [hsize])).trans ?_
          simp only [List.cons_append, List.nil_append, List.getD_cons_succ,
            List.getD_cons_zero, if_neg hlarge]
          refine ends_hear_short ht ?_ ?_
          · rw [List.length_take, hcount]
            omega
          · simp [hsize, hcount]
            omega

/-- The first two bytes of a burst are unit and function code. -/
theorem ends_openFrame
    (ht : bt < pause) (hrt : pause ≤ rt) {fc : UInt8} :
    Ends (answering (respond pause)) wrong (frameServer conf bt rt old d)
        ⟨[], (unit :: fc :: rest) :: coming, sent⟩ post ↔
      Ends (answering (respond pause)) wrong
        (hearRequest conf bt rt unit fc old d) ⟨rest, coming, sent⟩
        fun r line =>
          Ends (answering (respond pause)) wrong (dropRest r) line post := by
  have hsize : msgBufSize = 260 := rfl
  have hwait : BurstLine.wait pause rt
      ⟨[], (unit :: fc :: rest) :: coming, sent⟩ =
      ⟨unit :: fc :: rest, coming, sent⟩ := by
    rw [BurstLine.wait]
    exact if_pos hrt
  rw [frameServer, ends_answering_ask]
  simp only [respond, hwait, answerOf]
  have hone : transferStatus ((unit :: fc :: rest).take 1).length 1 =
      .errorNone := transferStatus_self 1
  rw [if_neg (not_not.mpr hone)]
  refine (ends_hear [fc] (wait_of_lt ht) rfl (by simp [hsize])).trans ?_
  exact ends_bind

end Requests

section Responses

variable {δ : Type}
variable {conf : NmbsConf δ}
variable {pause bt rt : Int32}
variable {wrong : BurstLine → Prop}
variable {rest : List UInt8} {coming sent : List (List UInt8)}
variable {unit : UInt8} {r : Request} {d : δ}
variable {post : NmbsError × δ → BurstLine → Prop}

/-- The fields that answer a request. -/
def Request.AnsweredBy (fields : List UInt8) : Request → Prop
  | .readRegisters _ quantity => ∃ data : List UInt8,
      fields = UInt8.ofNat data.length :: data ∧
        data.length = quantity.toNat * 2 ∧ data.length ≤ 250
  | .writeRegister address value =>
      fields = wireBytes address ++ wireBytes value
  | .writeRegisters address quantity _ _ =>
      fields = wireBytes address ++ wireBytes quantity
  | .writeRecords _ => ∃ e : FileEntry,
      e.registers.length ≤ 122 ∧
        fields = UInt8.ofNat e.bytes.length :: e.bytes

theorem wait_of_le {burst : List UInt8} (ht : pause ≤ rt) :
    BurstLine.wait pause rt ⟨[], burst :: coming, sent⟩ =
      ⟨burst, coming, sent⟩ := by
  rw [BurstLine.wait]
  exact if_pos ht

/-- The first byte of the next burst is heard. -/
theorem ends_openBurst
    (hrt : pause ≤ rt) {b : UInt8} {next : List UInt8 → Conduct δ} :
    Ends (answering (respond pause)) wrong (listen 1 rt [] d next)
        ⟨[], (b :: rest) :: coming, sent⟩ post ↔
      Ends (answering (respond pause)) wrong (next [b])
        ⟨rest, coming, sent⟩ post := by
  have hsize : msgBufSize = 260 := rfl
  have hburst : Ends (answering (respond pause)) wrong (listen 1 rt [] d next)
      ⟨b :: rest, coming, sent⟩ post ↔
      Ends (answering (respond pause)) wrong (next [b])
        ⟨rest, coming, sent⟩ post :=
    ends_hear [b] wait_of_cons rfl (by simp [hsize])
  rw [← hburst, listen, ends_answering_ask, ends_answering_ask]
  simp only [respond, wait_of_le hrt, wait_of_cons]

/-- The first two bytes of the next burst are those of a response. -/
theorem ends_openResponse
    (ht : bt < pause) (hrt : pause ≤ rt) {fc : UInt8}
    {next : List UInt8 → Conduct δ} :
    Ends (answering (respond pause)) wrong
        (overhearHeader conf.crcCalc bt rt unit fc d next)
        ⟨[], (unit :: fc :: rest) :: coming, sent⟩ post ↔
      Ends (answering (respond pause)) wrong (next [unit, fc])
        ⟨rest, coming, sent⟩ post := by
  have hsize : msgBufSize = 260 := rfl
  refine (ends_openBurst hrt).trans ?_
  refine (ends_hear [fc] (wait_of_lt ht) rfl (by simp [hsize])).trans ?_
  simp

theorem Request.toNat_exceptionFc (r : Request) :
    (r.fc + 0x80).toNat = r.fc.toNat + 128 := by
  cases r with
  | readRegisters | writeRegister | writeRegisters | writeRecords =>
      rfl

/-- An exception of another unit is heard as an error. -/
theorem ends_openException
    (ht : bt < pause) (hrt : pause ≤ rt) {code : UInt8}
    (hleast : 1 ≤ code) (hmost : code ≤ 4)
    {next : List UInt8 → Conduct δ} :
    Ends (answering (respond pause)) wrong
        (overhearHeader conf.crcCalc bt rt unit r.fc d next)
        ⟨[], withCheck conf.crcCalc [unit, r.fc + 0x80, code] :: coming,
          sent⟩ post ↔
      post (exceptionOfByte code, d) ⟨[], coming, sent⟩ := by
  have hsize : msgBufSize = 260 := rfl
  have hfc := r.toNat_exceptionFc
  have hother : r.fc + 0x80 ≠ r.fc := by
    intro h
    rw [h] at hfc
    omega
  have hcode : ¬ (code < 1 ∨ code > 4) := by
    rintro (h | h)
    · exact absurd hleast (UInt8.not_le.mpr h)
    · exact absurd hmost (UInt8.not_le.mpr h)
  have hframe : withCheck conf.crcCalc [unit, r.fc + 0x80, code] =
      unit :: ([r.fc + 0x80] ++ ([code] ++
        wireBytes (conf.crcCalc [unit, r.fc + 0x80, code]))) := rfl
  rw [hframe]
  refine (ends_openBurst hrt).trans ?_
  refine (ends_hear [r.fc + 0x80] (wait_of_lt ht) rfl
    (by simp [hsize])).trans ?_
  simp only [List.singleton_append, List.getD_cons_zero,
    List.getD_cons_succ, ne_eq, not_true_eq_false, if_false, hother]
  rw [if_pos (by rw [hfc]; omega)]
  refine (ends_hear [code] (wait_of_lt ht) rfl (by simp [hsize])).trans ?_
  refine (ends_hearCheck_right ht rfl).trans ?_
  simp only [List.cons_append, List.nil_append, List.getD_cons_zero,
    List.getD_cons_succ, hcode, if_false]
  rfl

/-- The check of a response with one record is expected behind it. -/
theorem checkPlace_of_entry
    (buf : ByteMem) (unit size : UInt8) {e : FileEntry}
    (hfew : e.registers.length ≤ 122) :
    checkPlace (storeBytes buf 0 ([unit, 21, size] ++ e.bytes)) =
      ([unit, 21, size] ++ e.bytes).length := by
  have hlen : ([unit, 21, size] ++ e.bytes).length =
      10 + 2 * e.registers.length := by
    simp
    omega
  have hmessage : [unit, 21, size] ++ e.bytes =
      ([unit, 21, size, 6] ++ wireBytes e.fileNumber ++
        wireBytes e.recordNumber) ++
          wireBytes (UInt16.ofNat e.registers.length) ++
            wireString e.registers := by
    simp [FileEntry.bytes]
  have hword : wordAt ([unit, 21, size] ++ e.bytes) 8 =
      UInt16.ofNat e.registers.length := by
    rw [hmessage]
    exact wordAt_wireBytes ([unit, 21, size, 6] ++ wireBytes e.fileNumber ++
      wireBytes e.recordNumber) _ _
  have hcount : (UInt16.ofNat e.registers.length).toNat =
      e.registers.length := by
    rw [UInt16.toNat_ofNat']
    omega
  rw [checkPlace, storeBytes_inside (by omega) (by omega),
    storeBytes_inside (by omega) (by omega)]
  change (10 + (wordAt ([unit, 21, size] ++ e.bytes) 8).toNat * 2 % 65536) %
    65536 = _
  rw [hword, hcount]
  omega

/-- The response of another unit is heard to its end. -/
theorem ends_overhearResponse
    (ht : bt < pause) (hrt : pause ≤ rt) {buf : ByteMem}
    {fields : List UInt8} (hfields : r.AnsweredBy fields) :
    Ends (answering (respond pause)) wrong
        (overhear conf.crcCalc bt rt unit buf d r)
        ⟨[], withCheck conf.crcCalc (unit :: r.fc :: fields) :: coming,
          sent⟩ post ↔
      post (.errorNone, d) ⟨[], coming, sent⟩ := by
  have hsize : msgBufSize = 260 := rfl
  cases r with
  | readRegisters address quantity =>
      rcases hfields with ⟨data, rfl, hquantity, hsmall⟩
      have hcount : (UInt8.ofNat data.length).toNat = data.length := by
        rw [UInt8.toNat_ofNat']
        omega
      have hlarge : ¬ UInt8.ofNat data.length > 250 := by
        rw [gt_iff_lt, UInt8.lt_iff_toNat_lt, hcount]
        exact Nat.not_lt.mpr hsmall
      refine (ends_openResponse ht hrt).trans ?_
      refine (ends_hear [UInt8.ofNat data.length] (wait_of_lt ht) rfl
        (by simp [hsize])).trans ?_
      simp only [List.cons_append, List.nil_append, List.getD_cons_succ,
        List.getD_cons_zero, if_neg hlarge]
      refine (ends_hear data (wait_of_lt ht) hcount.symm
        (by simp [hsize, hcount]; omega)).trans ?_
      refine (ends_hearCheck_right ht ?_).trans ?_
      · rw [List.take_of_length_le (by simp [hcount]; omega)]
        rfl
      · have hfield : (([unit, 3, UInt8.ofNat data.length] ++ data).getD
            2 0).toNat = quantity.toNat * 2 := by
          rw [← hquantity]
          exact hcount
        rw [if_neg (not_not.mpr hfield)]
        rfl
  | writeRegister address value =>
      subst hfields
      refine (ends_openResponse ht hrt).trans ?_
      refine (ends_hear (wireBytes address ++ wireBytes value)
        (wait_of_lt ht) rfl (by simp [hsize])).trans ?_
      refine (ends_hearCheck_right ht rfl).trans ?_
      simp [wordAt, wireBytes, halfword_hiByte_loByte]
      rfl
  | writeRegisters address quantity byteCount data =>
      subst hfields
      refine (ends_openResponse ht hrt).trans ?_
      refine (ends_hear (wireBytes address ++ wireBytes quantity)
        (wait_of_lt ht) rfl (by simp [hsize])).trans ?_
      refine (ends_hearCheck_right ht rfl).trans ?_
      simp [wordAt, wireBytes, halfword_hiByte_loByte]
      rfl
  | writeRecords data =>
      rcases hfields with ⟨e, hfew, rfl⟩
      have hlen : e.bytes.length = 7 + 2 * e.registers.length :=
        e.length_bytes
      have hcount : (UInt8.ofNat e.bytes.length).toNat =
          e.bytes.length := by
        rw [UInt8.toNat_ofNat']
        omega
      have hlarge : ¬ UInt8.ofNat e.bytes.length > 251 := by
        rw [gt_iff_lt, UInt8.lt_iff_toNat_lt, hcount]
        exact Nat.not_lt.mpr (by rw [hlen]; simp; omega)
      refine (ends_openResponse ht hrt).trans ?_
      refine (ends_hear [UInt8.ofNat e.bytes.length] (wait_of_lt ht) rfl
        (by simp [hsize])).trans ?_
      simp only [List.cons_append, List.nil_append, List.getD_cons_succ,
        List.getD_cons_zero, if_neg hlarge]
      refine (ends_hear e.bytes (wait_of_lt ht) hcount.symm
        (by simp [hsize]; omega)).trans ?_
      have hplace := checkPlace_of_entry buf unit
        (UInt8.ofNat e.bytes.length) hfew
      have hall : ([unit, 21, UInt8.ofNat e.bytes.length] ++
          e.bytes).length = 10 + 2 * e.registers.length := by
        simp
        omega
      rw [checkPlace] at hplace
      simp only [hplace, window_storeBytes]
      rw [if_neg (by omega), ends_answering_ask]
      simp only [respond, wait_of_lt ht, answerOf]
      have htaken : ∀ x : UInt16, (wireBytes x).take 2 = wireBytes x :=
        fun _ => rfl
      have hleft : ∀ x : UInt16, (wireBytes x).drop 2 = [] :=
        fun _ => rfl
      have hinside : ∀ x : UInt16,
          Inside ([unit, 21, UInt8.ofNat e.bytes.length] ++ e.bytes).length
            (wireBytes x).length := by
        intro x
        refine Or.inr ?_
        rw [hall, length_wireBytes]
        omega
      have hfull : ∀ x : UInt16,
          transferStatus (wireBytes x).length 2 = .errorNone :=
        fun _ => rfl
      rw [htaken, hleft, if_neg (not_not.mpr (hinside _)),
        if_neg (not_not.mpr (hfull _)), if_pos (by rfl)]
      rfl

end Responses

section Transactions

variable {δ : Type}

/-- What a master makes of a burst, or of two bursts in a row. -/
inductive Transaction
  | ours (unit : UInt8) (r : Request)
  | others (unit : UInt8) (r : Request) (fields : List UInt8)
  | refused (unit : UInt8) (r : Request) (code : UInt8)
  | damaged (unit : UInt8) (r : Request) (x y : UInt8)
  | cut (unit : UInt8) (r : Request) (n : Nat)

/-- The bursts of a transaction. -/
def Transaction.bursts (crcCalc : List UInt8 → UInt16) :
    Transaction → List (List UInt8)
  | .ours unit r => [requestFrame crcCalc (unit, r)]
  | .others unit r fields =>
      [requestFrame crcCalc (unit, r),
        withCheck crcCalc (unit :: r.fc :: fields)]
  | .refused unit r code =>
      [requestFrame crcCalc (unit, r),
        withCheck crcCalc [unit, r.fc + 0x80, code]]
  | .damaged unit r x y => [r.body unit ++ [x, y]]
  | .cut unit r n => [(requestFrame crcCalc (unit, r)).take n]

/-- Which transactions there are. -/
def Transaction.Valid (conf : NmbsConf δ) : Transaction → Prop
  | .ours unit r =>
      (unit = nmbsBroadcastAddress ∨ unit = conf.addressRtu) ∧
        r.WellFormed ∧ r.Bounded
  | .others unit r fields =>
      ¬ (unit = nmbsBroadcastAddress ∨ unit = conf.addressRtu) ∧
        r.WellFormed ∧ r.AnsweredBy fields
  | .refused unit r code =>
      ¬ (unit = nmbsBroadcastAddress ∨ unit = conf.addressRtu) ∧
        r.WellFormed ∧ 1 ≤ code ∧ code ≤ 4
  | .damaged unit r x y =>
      r.WellFormed ∧ [x, y] ≠ wireBytes (conf.crcCalc (r.body unit))
  | .cut unit r n =>
      r.WellFormed ∧ n < (requestFrame conf.crcCalc (unit, r)).length

/-- What a poll returns for a transaction. -/
def Transaction.status : Transaction → NmbsError
  | .ours _ _ => .errorNone
  | .others _ _ _ => .errorNone
  | .refused _ _ code => exceptionOfByte code
  | .damaged _ _ _ _ => .errorCrc
  | .cut _ _ n => if n = 0 then .errorNone else .errorTimeout

/-- The poll of a read timeout in which nothing comes. -/
def Transaction.idle : Transaction := .cut 0 (.readRegisters 0 0) 0

theorem valid_idle (conf : NmbsConf δ) : Transaction.idle.Valid conf := by
  refine ⟨trivial, ?_⟩
  rw [requestFrame, withCheck, List.length_append]
  exact Nat.add_pos_left (Nat.succ_pos _) _

/-- The frames sent and the device behind a transaction; none if undefined. -/
def Transaction.effect (conf : NmbsConf δ) :
    Transaction → δ → Option (List (List UInt8) × δ)
  | .ours unit r, d =>
      (serve conf.callbacks unit [] r d).map fun p =>
        (answerFrames conf.crcCalc unit r.fc p.1, p.2)
  | _, d => some ([], d)

variable {conf : NmbsConf δ}
variable {pause bt rt : Int32}
variable {coming sent : List (List UInt8)} {old : ByteMem} {d : δ}

/-- What is known behind a transaction. -/
def Transaction.After (conf : NmbsConf δ) (t : Transaction)
    (coming sent : List (List UInt8)) (d : δ)
    (r : NmbsError × δ) (line : BurstLine) : Prop :=
  r.1 = t.status ∧ line.current = [] ∧ line.coming = coming ∧
    ∃ frames, t.effect conf d = some (frames, r.2) ∧
      line.sent = sent ++ frames

/-- A request that has been heard is served, or goes wrong if undefined. -/
theorem ends_ours
    {unit : UInt8} {r : Request}
    (hours : unit = nmbsBroadcastAddress ∨ unit = conf.addressRtu)
    (hbounded : r.Bounded) :
    Ends (answering (respond pause))
      (fun _ => (Transaction.ours unit r).effect conf d = none)
      (meetRequest conf bt rt unit old r d) ⟨[], coming, sent⟩
      ((Transaction.ours unit r).After conf coming sent d) := by
  rw [meetRequest, if_pos hours]
  dsimp only
  rw [serve_stale _ [] hbounded]
  cases hserve : serve conf.callbacks unit [] r d with
  | none =>
      exact Option.map_eq_none_iff.mpr hserve
  | some p =>
      refine ends_say.mpr ⟨rfl, rfl, rfl, _, ?_, rfl⟩
      rw [Transaction.effect, hserve]
      rfl

/-- A burst that is the frame of a request is heard to its end. -/
theorem ends_frame
    (ht : bt < pause) (hrt : pause ≤ rt)
    {wrong : BurstLine → Prop} {post : NmbsError × δ → BurstLine → Prop}
    {unit : UInt8} {r : Request} (hr : r.WellFormed) :
    Ends (answering (respond pause)) wrong (frameServer conf bt rt old d)
        ⟨[], requestFrame conf.crcCalc (unit, r) :: coming, sent⟩ post ↔
      Ends (answering (respond pause)) wrong
        (meetRequest conf bt rt unit old r d) ⟨[], coming, sent⟩
        fun r line =>
          Ends (answering (respond pause)) wrong (dropRest r) line post := by
  refine (ends_openFrame ht hrt).trans ?_
  refine (ends_hearFields ht hr).trans ?_
  exact ends_hearCheck_right ht rfl

theorem Transaction.After.drop
    {wrong : BurstLine → Prop} {t : Transaction} {r : NmbsError × δ}
    {line : BurstLine} (h : t.After conf coming sent d r line)
    (hpause : 0 < pause) :
    Ends (answering (respond pause)) wrong (dropRest r) line
      (t.After conf coming sent d) := by
  obtain ⟨current, coming', sent'⟩ := line
  obtain rfl : current = [] := h.2.1
  exact (ends_dropNothing hpause).mpr h

/-- A transaction that only returns its status. -/
theorem Transaction.after_quiet
    {t : Transaction} (ht : t.effect conf d = some ([], d)) :
    t.After conf coming sent d (t.status, d) ⟨[], coming, sent⟩ :=
  ⟨rfl, rfl, rfl, [], ht, (List.append_nil _).symm⟩

/-- A frame that breaks off times out. -/
theorem ends_cut
    (hpause : 0 < pause) (ht : bt < pause) (hrt : pause ≤ rt)
    {wrong : BurstLine → Prop} {unit : UInt8} {r : Request} {n : Nat}
    (hr : r.WellFormed)
    (hn : n < (requestFrame conf.crcCalc (unit, r)).length) :
    Ends (answering (respond pause)) wrong (frameServer conf bt rt old d)
      ⟨[], (requestFrame conf.crcCalc (unit, r)).take n :: coming, sent⟩
      ((Transaction.cut unit r n).After conf coming sent d) := by
  have hsize : msgBufSize = 260 := rfl
  have hquiet := @Transaction.after_quiet δ conf coming sent d
    (.cut unit r n) rfl
  match n with
  | 0 =>
      rw [frameServer, List.take_zero, ends_answering_ask]
      simp only [respond, wait_of_le hrt, answerOf, List.take_nil,
        List.drop_nil]
      exact hquiet
  | 1 =>
      have hburst : (requestFrame conf.crcCalc (unit, r)).take 1 = [unit] :=
        rfl
      have hone : transferStatus ([unit].take 1).length 1 = .errorNone :=
        rfl
      rw [frameServer, hburst, ends_answering_ask]
      simp only [respond, wait_of_le hrt, answerOf]
      rw [if_neg (not_not.mpr hone)]
      exact (ends_hear_short ht (Nat.zero_lt_one)
        (by simp [hsize])).mpr hquiet
  | n + 2 =>
      have hlen : (requestFrame conf.crcCalc (unit, r)).length =
          r.fields.length + 4 := by
        simp [requestFrame, withCheck, Request.body]
      have hburst : (requestFrame conf.crcCalc (unit, r)).take (n + 2) =
          unit :: r.fc :: (r.fields ++
            wireBytes (conf.crcCalc (r.body unit))).take n := rfl
      rw [hburst]
      refine (ends_openFrame ht hrt).mpr ?_
      by_cases hfields : n < r.fields.length
      · rw [List.take_append_of_le_length (by omega)]
        exact (ends_cutFields ht hr hfields).mpr (hquiet.drop hpause)
      · rw [List.take_append, List.take_of_length_le (by omega)]
        refine (ends_hearFields ht hr).mpr ?_
        refine (ends_hearCheck_short ht ?_).mpr (hquiet.drop hpause)
        rw [List.length_take]
        omega

/--
One poll for a transaction: its status, its replies and what it makes of the
device, with the later bursts still to come.
-/
theorem ends_transaction
    (hpause : 0 < pause) (ht : bt < pause) (hrt : pause ≤ rt)
    {t : Transaction} (hvalid : t.Valid conf) :
    Ends (answering (respond pause)) (fun _ => t.effect conf d = none)
      (frameServer conf bt rt old d)
      ⟨[], t.bursts conf.crcCalc ++ coming, sent⟩
      (t.After conf coming sent d) := by
  cases t with
  | ours unit r =>
      rcases hvalid with ⟨hours, hr, hbounded⟩
      refine (ends_frame ht hrt hr).mpr ?_
      exact (ends_ours hours hbounded).mono
        (fun r line h => h.drop hpause) fun _ => id
  | others unit r fields =>
      rcases hvalid with ⟨hother, hr, hfields⟩
      refine (ends_frame ht hrt hr).mpr ?_
      rw [meetRequest, if_neg hother]
      refine (ends_overhearResponse ht hrt hfields).mpr ?_
      exact (@Transaction.after_quiet δ conf coming sent d
        (.others unit r fields) rfl).drop hpause
  | refused unit r code =>
      rcases hvalid with ⟨hother, hr, hleast, hmost⟩
      refine (ends_frame ht hrt hr).mpr ?_
      rw [meetRequest, if_neg hother]
      cases r with
      | readRegisters | writeRegister | writeRegisters | writeRecords =>
          refine (ends_openException ht hrt hleast hmost).mpr ?_
          exact (@Transaction.after_quiet δ conf coming sent d
            (.refused unit _ code) rfl).drop hpause
  | damaged unit r x y =>
      rcases hvalid with ⟨hr, hwrong⟩
      refine (ends_openFrame ht hrt).mpr ?_
      refine (ends_hearFields ht hr).mpr ?_
      refine (ends_hearCheck ht).mpr ?_
      rw [if_neg hwrong]
      exact (@Transaction.after_quiet δ conf coming sent d
        (.damaged unit r x y) rfl).drop hpause
  | cut unit r n =>
      rcases hvalid with ⟨hr, hn⟩
      exact ends_cut hpause ht hrt hr hn

end Transactions

section Conversations

variable {δ : Type}
variable {conf : NmbsConf δ}
variable {pause : Int32}

/-- The frames sent and the device behind transactions; none if undefined. -/
def converse (conf : NmbsConf δ) :
    List Transaction → δ → Option (List (List UInt8) × δ)
  | [], d => some ([], d)
  | t :: ts, d =>
      match t.effect conf d with
      | none => none
      | some (frames, d') =>
          (converse conf ts d').map fun p => (frames ++ p.1, p.2)

theorem converse_cons
    {t : Transaction} {ts : List Transaction} {d d' : δ}
    {frames : List (List UInt8)}
    (ht : t.effect conf d = some (frames, d')) :
    converse conf (t :: ts) d =
      (converse conf ts d').map fun p => (frames ++ p.1, p.2) := by
  rw [converse, ht]

/-- One poll is for one transaction. -/
theorem poll_transaction
    (hrtu : conf.transport = .nmbsTransportRtu) {s : Server δ}
    (hpause : 0 < pause) (hbt : s.byteTimeoutMs < pause)
    (hrt : pause ≤ s.readTimeoutMs)
    {t : Transaction} (hvalid : t.Valid conf)
    (coming sent : List (List UInt8)) :
    Leads (answering (respond pause))
      (fun _ => t.effect conf s.device = none)
      (nmbsServerPoll conf) s ⟨[], t.bursts conf.crcCalc ++ coming, sent⟩
      fun err s' line =>
        s'.byteTimeoutMs = s.byteTimeoutMs ∧
          s'.readTimeoutMs = s.readTimeoutMs ∧
          t.After conf coming sent s.device (err, s'.device) line := by
  have hframes := @ends_transaction δ conf pause s.byteTimeoutMs
    s.readTimeoutMs coming sent s.msg.buf s.device hpause hbt hrt t hvalid
  refine ((poll_agrees hrtu s).ends hframes).mono ?_ fun _ => id
  rintro ⟨err, s'⟩ line ⟨⟨err', d'⟩, hsame, hafter⟩
  obtain rfl : err = err' := hsame.error
  obtain rfl : s'.device = d' := hsame.device
  exact ⟨hsame.byteTimeout, hsame.readTimeout, hafter⟩

/--
A list of transactions is met by as many polls. The server goes wrong exactly if
the service of a request is undefined.
-/
theorem conversation
    (hrtu : conf.transport = .nmbsTransportRtu) (s : Server δ)
    (hpause : 0 < pause) (hbt : s.byteTimeoutMs < pause)
    (hrt : pause ≤ s.readTimeoutMs)
    (ts : List Transaction) (hvalid : ∀ t ∈ ts, t.Valid conf)
    (sent : List (List UInt8)) :
    Leads (answering (respond pause))
      (fun _ => converse conf ts s.device = none)
      (times (nmbsServerPoll conf) ts.length) s
      ⟨[], ts.flatMap (Transaction.bursts conf.crcCalc), sent⟩
      fun errs s' line =>
        errs = ts.map Transaction.status ∧
          s'.byteTimeoutMs = s.byteTimeoutMs ∧
          s'.readTimeoutMs = s.readTimeoutMs ∧
          line.current = [] ∧ line.coming = [] ∧
          ∃ frames, converse conf ts s.device = some (frames, s'.device) ∧
            line.sent = sent ++ frames := by
  induction ts generalizing s sent with
  | nil =>
      rw [List.length_nil, times, leads_pure]
      exact ⟨rfl, rfl, rfl, rfl, rfl, [], rfl, (List.append_nil _).symm⟩
  | cons t ts ih =>
      have hfirst := poll_transaction hrtu hpause hbt hrt
        (hvalid t (List.mem_cons_self ..))
        (ts.flatMap (Transaction.bursts conf.crcCalc)) sent
      rw [List.length_cons, times, leads_bind, List.flatMap_cons]
      refine hfirst.mono ?_ fun line hnone => ?_
      · rintro err s' ⟨current, coming, sent'⟩ ⟨hbt', hrt', hafter⟩
        rcases hafter with ⟨rfl, rfl, rfl, frames, heffect, rfl⟩
        have hrest := ih s' (by rw [hbt']; exact hbt)
          (by rw [hrt']; exact hrt)
          (fun t' ht' => hvalid t' (List.mem_cons_of_mem t ht'))
          (sent ++ frames)
        rw [leads_bind]
        refine hrest.mono ?_ fun line hnone => ?_
        · rintro errs s'' line ⟨rfl, hbt'', hrt'', hcurrent, hcoming,
            frames', hconverse, hsent⟩
          rw [leads_pure]
          refine ⟨rfl, hbt''.trans hbt', hrt''.trans hrt', hcurrent,
            hcoming, frames ++ frames', ?_, ?_⟩
          · rw [converse_cons heffect, hconverse]
            rfl
          · rw [hsent, List.append_assoc]
        · rw [converse_cons heffect, hnone]
          rfl
      · rw [converse, hnone]

/--
The run of as many polls as there are transactions. It goes wrong exactly if a
service is undefined, and else leaves nothing on the line, has sent the replies
in their order, and returns the status of each transaction.
-/
theorem conversation_run
    (hrtu : conf.transport = .nmbsTransportRtu) (s : Server δ)
    (hpause : 0 < pause) (hbt : s.byteTimeoutMs < pause)
    (hrt : pause ≤ s.readTimeoutMs)
    (ts : List Transaction) (hvalid : ∀ t ∈ ts, t.Valid conf)
    (sent : List (List UInt8)) :
    match converse conf ts s.device with
    | none =>
        (runDialogue (respond pause)
          (times (nmbsServerPoll conf) ts.length s)
          ⟨[], ts.flatMap (Transaction.bursts conf.crcCalc), sent⟩).1 = none
    | some (frames, d') =>
        ∃ s' : Server δ,
          runDialogue (respond pause)
              (times (nmbsServerPoll conf) ts.length s)
              ⟨[], ts.flatMap (Transaction.bursts conf.crcCalc), sent⟩ =
            (some (ts.map Transaction.status, s'),
              ⟨[], [], sent ++ frames⟩) ∧
          s'.device = d' ∧ s'.byteTimeoutMs = s.byteTimeoutMs ∧
            s'.readTimeoutMs = s.readTimeoutMs := by
  have hconversation :=
    conversation hrtu s hpause hbt hrt ts hvalid sent
  rw [Leads, ends_answering_iff] at hconversation
  match hrun : runDialogue (respond pause)
      (times (nmbsServerPoll conf) ts.length s)
      ⟨[], ts.flatMap (Transaction.bursts conf.crcCalc), sent⟩ with
  | (none, line) =>
      rw [hrun] at hconversation
      rw [hconversation]
  | (some (errs, s'), ⟨current, coming, sent'⟩) =>
      rw [hrun] at hconversation
      obtain ⟨rfl, hbt', hrt', rfl, rfl, frames, hconverse, rfl⟩ :=
        hconversation
      rw [hconverse]
      exact ⟨s', rfl, rfl, hbt', hrt'⟩

/-- A request that breaks off, then a read that no callback serves. -/
theorem conversation_run_bare :
    ∃ s' : Server Unit,
      runDialogue (respond 150) (times (nmbsServerPoll bareConf) 2 bareServer)
          ⟨[], [Transaction.cut 1 (.readRegisters 0 2) 3,
            .ours 1 (.readRegisters 0 2)].flatMap
              (Transaction.bursts nmbsCrcCalc), []⟩ =
        (some ([.errorTimeout, .errorNone], s'),
          ⟨[], [], [withCheck nmbsCrcCalc [1, 0x83, 1]]⟩) ∧
      s'.device = () ∧ s'.byteTimeoutMs = 100 ∧ s'.readTimeoutMs = 200 := by
  refine @conversation_run Unit bareConf 150 rfl bareServer (by decide)
    (by decide) (by decide)
    [.cut 1 (.readRegisters 0 2) 3, .ours 1 (.readRegisters 0 2)] ?_ []
  intro t ht
  rcases ht with _ | ⟨_, _ | ⟨_, ht⟩⟩
  · refine ⟨trivial, ?_⟩
    rw [requestFrame, withCheck, List.length_append, length_wireBytes]
    decide
  · exact ⟨Or.inr rfl, trivial, trivial⟩
  · cases ht

end Conversations

end Port
end ModbusRtu
