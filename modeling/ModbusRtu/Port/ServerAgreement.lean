import ModbusRtu.Port.MessageBuffer

/-!
# The server behaves as the server on frames

Two dialogues agree if they ask the line for the same things and end alike,
whatever they are answered. This module shows that the functions of the server,
started at a place of a message, agree with what the server on frames does with
that message as a list: reception with listening, the footer with the check, the
response functions with overhearing, and the sending functions with the delivery
of a reply.

The transport is the serial line throughout.
-/

namespace ModbusRtu
namespace Port

open Kernel

section Relation

variable {δ : Type}

/-- Same error and device, and the timeouts as they were. -/
structure Same (bt rt : Int32)
    (r : NmbsError × Server δ) (r' : NmbsError × δ) : Prop where
  error : r.1 = r'.1
  device : r.2.device = r'.2
  byteTimeout : r.2.byteTimeoutMs = bt
  readTimeout : r.2.readTimeoutMs = rt

end Relation

section Reception

variable {δ : Type} {β : Type}
variable {conf : NmbsConf δ}
variable {old : ByteMem} {message : List UInt8}
variable {unit fc : UInt8} {broadcast ignored : Bool}
variable {t bt rt : Int32} {d : δ}

/-- A transfer without an error is complete. -/
theorem length_of_errorNone {n : Nat} {a : ReadAnswer n}
    (h : transferStatus a.ret n = .errorNone) :
    a.stored.length = n := by
  have hle := a.length_stored_le
  have hret := a.ret_eq
  rw [transferStatus] at h
  split at h
  · omega
  · split at h
    · split at h <;> cases h
    · cases h

theorem run_platformRead (n : Nat)
    (f : ReadAnswer n → ServerM δ β) (s : Server δ) :
    (platformRead n t >>= f) s =
      .ask (LineCall.read n t) fun a => f a s := by
  rfl

theorem run_platformWrite (bytes : List UInt8)
    (f : Int → ServerM δ β) (s : Server δ) :
    (platformWrite bytes t >>= f) s =
      .ask (LineCall.write bytes t) fun ret => f ret s := by
  rfl

/-- Received bytes lie behind the message. -/
theorem run_recv
    (hfit : message.length ≤ msgBufSize) (n : Nat)
    (f : NmbsError → ServerM δ β) :
    (recv n >>= f)
        (serverAt old message message.length unit fc broadcast ignored
          t rt d) =
      .ask (LineCall.read n t) fun a =>
        if msgBufSize < message.length + a.stored.length then
          .fault
        else
          f (transferStatus a.ret n)
            (serverAt old (message ++ a.stored) message.length unit fc
              broadcast ignored t rt d) := by
  rw [recv, run_bind_assoc, run_inspect]
  simp only [Bool.false_eq_true, if_false, run_bind_assoc, run_inspect]
  rw [run_platformRead]
  refine congrArg (Dialogue.ask _) (funext fun a => ?_)
  split
  · rename_i hlong
    have hout : ¬ Inside message.length a.stored.length := by
      rintro (hnone | hin) <;> omega
    rw [storeAt, if_neg hout]
    rfl
  · rw [run_storeAt_end (by omega)]
    rfl

/-- Where the bytes asked for fit the reception is defined. -/
theorem run_recv_inside
    {place n : Nat} (hplace : message.length = place)
    (hfit : place + n ≤ msgBufSize) (f : NmbsError → ServerM δ β) :
    (recv n >>= f)
        (serverAt old message place unit fc broadcast ignored t rt d) =
      .ask (LineCall.read n t) fun a =>
        f (transferStatus a.ret n)
          (serverAt old (message ++ a.stored) place unit fc broadcast
            ignored t rt d) := by
  subst hplace
  rw [run_recv (by omega)]
  refine congrArg (Dialogue.ask _) (funext fun a => ?_)
  have hle := a.length_stored_le
  rw [if_neg (by omega)]

/-- Where the bytes asked for fit listening is defined. -/
theorem listen_inside
    {n : Nat} {heard : List UInt8} (hfit : heard.length + n ≤ msgBufSize)
    (next : List UInt8 → Conduct δ) :
    listen n t heard d next =
      .ask (LineCall.read n t) fun a =>
        if transferStatus a.ret n = .errorNone then
          next (heard ++ a.stored)
        else
          .ret (transferStatus a.ret n, d) := by
  rw [listen]
  refine congrArg (Dialogue.ask _) (funext fun a => ?_)
  have hle := a.length_stored_le
  rw [if_neg (by omega)]

/-- Receiving behind a message agrees with listening. -/
theorem agrees_recv
    {place : Nat} (hplace : message.length = place)
    (hfit : place ≤ msgBufSize) {n : Nat}
    {rest : ServerM δ NmbsError} {next : List UInt8 → Conduct δ}
    (hnext : ∀ bytes : List UInt8, bytes.length = n →
      place + n ≤ msgBufSize →
      Agrees (Same bt rt)
        (rest (serverAt old (message ++ bytes) place unit fc broadcast
          ignored bt rt d))
        (next (message ++ bytes))) :
    Agrees (Same bt rt)
      (orReturn (recv n) rest
        (serverAt old message place unit fc broadcast ignored bt rt d))
      (listen n bt message d next) := by
  subst hplace
  rw [orReturn, run_recv hfit, listen]
  refine .ask fun a => ?_
  split
  · exact .fault
  · by_cases hfull : transferStatus a.ret n = .errorNone
    · rw [if_neg (not_not.mpr hfull), if_pos hfull]
      have hlen := length_of_errorNone hfull
      exact hnext a.stored hlen (by omega)
    · rw [if_pos hfull, if_neg hfull]
      exact .ret ⟨rfl, rfl, rfl, rfl⟩

theorem wordAt_end_eq_iff {x y : UInt8} {crc : UInt16} :
    wordAt (message ++ [x, y]) message.length = crc ↔
      [x, y] = wireBytes crc := by
  have hword :
      wordAt (message ++ [x, y]) message.length = halfword x y := by
    simp [wordAt]
  rw [hword]
  constructor
  · rintro rfl
    rw [wireBytes, hiByte_halfword, loByte_halfword]
  · intro h
    obtain ⟨rfl, hy⟩ := List.cons.inj h
    obtain ⟨rfl, -⟩ := List.cons.inj hy
    exact halfword_hiByte_loByte crc

/-- Receiving a check behind a message agrees with listening for it. -/
theorem agrees_recvMsgFooter
    (hrtu : conf.transport = .nmbsTransportRtu)
    {place : Nat} (hplace : message.length = place)
    (hfit : place + 2 ≤ msgBufSize)
    {rest : ServerM δ NmbsError} {next : Conduct δ}
    (hnext :
      Agrees (Same bt rt)
        (rest (serverAt old (withCheck conf.crcCalc message) (place + 2)
          unit fc broadcast ignored bt rt d))
        next) :
    Agrees (Same bt rt)
      (orReturn (recvMsgFooter conf) rest
        (serverAt old message place unit fc broadcast ignored bt rt d))
      (listenCheck conf.crcCalc bt message d next) := by
  subst hplace
  have hsize : msgBufSize = 260 := rfl
  rw [orReturn, recvMsgFooter, hrtu, listenCheck]
  simp only [run_bind_assoc, run_inspect]
  rw [run_loadAt (a := 0) (Or.inr (by omega)), orReturn, run_bind_assoc,
    run_recv (by omega)]
  refine .ask fun a => ?_
  have hle := a.length_stored_le
  rw [if_neg (by omega)]
  by_cases hfull : transferStatus a.ret 2 = .errorNone
  · obtain ⟨x, y, hxy⟩ := List.length_eq_two.mp (length_of_errorNone hfull)
    rw [if_neg (not_not.mpr hfull), if_neg (not_not.mpr hfull), hxy,
      run_bind_assoc, run_get2 (by simp) (by simpa using hfit),
      window_storeBytes]
    by_cases hcrc : [x, y] = wireBytes (conf.crcCalc message)
    · rw [if_neg (not_not.mpr (wordAt_end_eq_iff.mpr hcrc)), if_pos hcrc,
        hcrc]
      exact hnext
    · rw [if_pos fun h => hcrc (wordAt_end_eq_iff.mp h), if_neg hcrc]
      exact .ret ⟨rfl, rfl, rfl, rfl⟩
  · rw [if_pos hfull, if_pos hfull]
    simp only [run_bind, run_pure]
    rw [Dialogue.bind, if_pos hfull]
    exact .ret ⟨rfl, rfl, rfl, rfl⟩

end Reception

section Headers

variable {δ : Type} {β : Type}
variable {conf : NmbsConf δ}
variable {bt rt : Int32}

/-- The header of a message: unit and function code, one byte each. -/
theorem run_recvMsgHeader
    (hrtu : conf.transport = .nmbsTransportRtu)
    (f : NmbsError × Bool → ServerM δ β) {s : Server δ}
    (hbt : s.byteTimeoutMs = bt) (hrt : s.readTimeoutMs = rt) :
    (recvMsgHeader conf >>= f) s =
      .ask (LineCall.read 1 rt) fun a =>
        if transferStatus a.ret 1 ≠ .errorNone then
          f (transferStatus a.ret 1, false)
            (serverAt s.msg.buf a.stored 0 0 0 false false bt rt s.device)
        else
          .ask (LineCall.read 1 bt) fun b =>
            if transferStatus b.ret 1 ≠ .errorNone then
              f (transferStatus b.ret 1, true)
                (serverAt s.msg.buf (a.stored ++ b.stored) 1
                  (a.stored.getD 0 0) 0 false false bt rt s.device)
            else
              f (.errorNone, true)
                (serverAt s.msg.buf (a.stored ++ b.stored) 2
                  (a.stored.getD 0 0) ((a.stored ++ b.stored).getD 1 0)
                  false false bt rt s.device) := by
  have hsize : msgBufSize = 260 := rfl
  obtain ⟨old, hold⟩ : ∃ old, s.msg.buf = storeBytes old 0 [] :=
    ⟨s.msg.buf, (storeBytes_nil _ _).symm⟩
  rw [recvMsgHeader, hrtu]
  simp only [run_bind_assoc, run_inspect, run_modify, msgStateReset,
    run_modifyMsg, hbt, hrt, hold]
  rw [run_recv_inside (by rfl) (by omega)]
  simp only [List.nil_append, storeBytes_nil]
  refine congrArg (Dialogue.ask _) (funext fun a => ?_)
  rw [run_modify]
  by_cases hfirst : transferStatus a.ret 1 = .errorNone
  · have hone := length_of_errorNone hfirst
    rw [if_neg (not_not.mpr hfirst), if_neg (not_not.mpr hfirst)]
    simp only [run_bind_assoc]
    rw [run_get1 (by omega) (by omega), run_modifyMsg,
      run_recv_inside hone (by omega)]
    refine congrArg (Dialogue.ask _) (funext fun b => ?_)
    by_cases hsecond : transferStatus b.ret 1 = .errorNone
    · have htwo : (a.stored ++ b.stored).length = 2 := by
        rw [List.length_append, hone, length_of_errorNone hsecond]
      rw [if_neg (not_not.mpr hsecond), if_neg (not_not.mpr hsecond)]
      simp only [run_bind_assoc]
      rw [run_get1 (by omega) (by omega), run_modifyMsg]
      rfl
    · rw [if_pos hsecond, if_pos hsecond]
      rfl
  · rw [if_pos hfirst, if_pos hfirst]
    rfl

end Headers

section Responses

variable {δ : Type} {β : Type}
variable {conf : NmbsConf δ}
variable {bt rt : Int32}

theorem orReturn_bind
    (x : ServerM δ β) (f : β → ServerM δ NmbsError)
    (rest : ServerM δ NmbsError) :
    orReturn (x >>= f) rest = x >>= fun a => orReturn (f a) rest := by
  simp only [orReturn, run_bind_assoc]

theorem orReturn_pure (err : NmbsError) (rest : ServerM δ NmbsError) :
    orReturn (pure err) rest =
      if err ≠ .errorNone then pure err else rest := by
  rfl

theorem orReturn_ite {c : Prop} [Decidable c]
    (x y rest : ServerM δ NmbsError) :
    orReturn (if c then x else y) rest =
      if c then orReturn x rest else orReturn y rest := by
  split <;> rfl

theorem orReturn_assoc (x y z : ServerM δ NmbsError) :
    orReturn (orReturn x y) z = orReturn x (orReturn y z) := by
  conv_lhs =>
    rw [orReturn, orReturn, run_bind_assoc]
  rw [orReturn]
  refine congrArg (x >>= ·) (funext fun err => ?_)
  by_cases herr : err = .errorNone
  · rw [if_neg (not_not.mpr herr), if_neg (not_not.mpr herr)]
    rfl
  · rw [if_pos herr, if_pos herr]
    change (if err ≠ .errorNone then pure err else z) = pure err
    rw [if_pos herr]

theorem exceptionOfByte_ne_errorNone (b : UInt8) :
    exceptionOfByte b ≠ .errorNone := by
  rw [exceptionOfByte]
  split
  · simp
  · split
    · simp
    · split <;> simp

/-- Receiving the header of a response agrees with overhearing it. -/
theorem agrees_recvResHeader
    (hrtu : conf.transport = .nmbsTransportRtu)
    {s : Server δ} {unit fc : UInt8}
    (hunit : s.msg.unitId = unit) (hfc : s.msg.fc = fc)
    (hbt : s.byteTimeoutMs = bt) (hrt : s.readTimeoutMs = rt)
    {rest : ServerM δ NmbsError} {next : List UInt8 → Conduct δ}
    (hnext : ∀ h : List UInt8, h.length = 2 →
      Agrees (Same bt rt)
        (rest (serverAt s.msg.buf h 2 unit fc false false bt rt s.device))
        (next h)) :
    Agrees (Same bt rt) (orReturn (recvResHeader conf) rest s)
      (overhearHeader conf.crcCalc bt rt unit fc s.device next) := by
  have hsize : msgBufSize = 260 := rfl
  rw [recvResHeader]
  simp only [orReturn_bind, run_inspect, hunit, hfc]
  rw [run_recvMsgHeader hrtu _ hbt hrt, overhearHeader,
    listen_inside (by rw [List.length_nil]; omega)]
  refine .ask fun a => ?_
  by_cases hfirst : transferStatus a.ret 1 = .errorNone
  · have hone := length_of_errorNone hfirst
    rw [if_neg (not_not.mpr hfirst), if_pos hfirst, List.nil_append,
      listen_inside (by omega)]
    refine .ask fun b => ?_
    by_cases hsecond : transferStatus b.ret 1 = .errorNone
    · have htwo : (a.stored ++ b.stored).length = 2 := by
        rw [List.length_append, hone, length_of_errorNone hsecond]
      have hfirstByte :
          (a.stored ++ b.stored).getD 0 0 = a.stored.getD 0 0 :=
        List.getD_append _ _ _ _ (by omega)
      rw [if_neg (not_not.mpr hsecond), if_pos hsecond, hfirstByte]
      simp only [ne_eq, not_true_eq_false, if_false, orReturn_bind,
        orReturn_ite, orReturn_pure, orReturn_assoc, run_inspect, hrtu,
        true_and, reduceCtorEq, false_and, not_false_eq_true, if_true,
        exceptionOfByte_ne_errorNone]
      generalize a.stored ++ b.stored = h at htwo
      by_cases hother : a.stored.getD 0 0 = unit
      · rw [if_neg (not_not.mpr hother), if_neg (not_not.mpr hother)]
        by_cases hsame : h.getD 1 0 = fc
        · rw [if_neg (not_not.mpr hsame), if_pos hsame, hother, hsame]
          exact hnext h htwo
        · rw [if_pos hsame, if_neg hsame]
          by_cases hexception : ((h.getD 1 0).toNat : Int) - 128 = fc.toNat
          · rw [if_pos hexception, if_pos hexception]
            refine agrees_recv htwo (by omega) fun bytes hbytes _ => ?_
            have hthree : (h ++ bytes).length = 3 := by
              rw [List.length_append, htwo, hbytes]
            rw [run_get1 (by omega) (by omega)]
            refine agrees_recvMsgFooter hrtu hthree (by omega) ?_
            split
            · exact .ret ⟨rfl, rfl, rfl, rfl⟩
            · exact .ret ⟨rfl, rfl, rfl, rfl⟩
          · rw [if_neg hexception, if_neg hexception]
            exact .ret ⟨rfl, rfl, rfl, rfl⟩
      · rw [if_pos hother, if_pos hother]
        exact .ret ⟨rfl, rfl, rfl, rfl⟩
    · rw [if_pos hsecond, if_neg hsecond]
      simp only [ne_eq, hsecond, not_false_eq_true, if_true,
        orReturn_pure, run_pure]
      exact .ret ⟨rfl, rfl, rfl, rfl⟩
  · rw [if_pos hfirst, if_neg hfirst]
    simp only [ne_eq, hfirst, not_false_eq_true, if_true,
      orReturn_pure, run_pure]
    exact .ret ⟨rfl, rfl, rfl, rfl⟩

theorem agrees_recvReadRegistersRes
    (hrtu : conf.transport = .nmbsTransportRtu)
    {s : Server δ} {unit : UInt8} (quantity : UInt16)
    (hunit : s.msg.unitId = unit) (hfc : s.msg.fc = 3)
    (hbt : s.byteTimeoutMs = bt) (hrt : s.readTimeoutMs = rt) :
    Agrees (Same bt rt) (recvReadRegistersRes conf quantity s)
      (overhearRead conf.crcCalc bt rt unit quantity s.device) := by
  have hsize : msgBufSize = 260 := rfl
  refine agrees_recvResHeader hrtu hunit hfc hbt hrt fun h hlen => ?_
  refine agrees_recv hlen (by omega) fun bytes hbytes _ => ?_
  have hthree : (h ++ bytes).length = 3 := by
    rw [List.length_append, hlen, hbytes]
  generalize h ++ bytes = h at hthree
  rw [run_get1 (by omega) (by omega)]
  split
  · exact .ret ⟨rfl, rfl, rfl, rfl⟩
  · rename_i hsmall
    have hcount : (h.getD 2 0).toNat ≤ 250 := by
      exact Nat.le_of_not_lt hsmall
    refine agrees_recv hthree (by omega) fun data hdata _ => ?_
    have hfield : (h ++ data).getD 2 0 = h.getD 2 0 :=
      List.getD_append _ _ _ _ (by omega)
    have hall : (h ++ data).length = 3 + (h.getD 2 0).toNat := by
      rw [List.length_append, hthree, hdata]
    rw [hfield, run_getWords (by omega) (by omega), serverAt_take (by omega)]
    refine agrees_recvMsgFooter hrtu
      (by rw [List.length_take]; omega) (by omega) ?_
    split
    · exact .ret ⟨rfl, rfl, rfl, rfl⟩
    · exact .ret ⟨rfl, rfl, rfl, rfl⟩

theorem agrees_recvWriteRes
    (hrtu : conf.transport = .nmbsTransportRtu)
    {s : Server δ} {unit fc : UInt8} (first second : UInt16)
    (hunit : s.msg.unitId = unit) (hfc : s.msg.fc = fc)
    (hbt : s.byteTimeoutMs = bt) (hrt : s.readTimeoutMs = rt) :
    Agrees (Same bt rt) (recvWriteRes conf first second s)
      (overhearWrite conf.crcCalc bt rt unit fc first second s.device) := by
  have hsize : msgBufSize = 260 := rfl
  refine agrees_recvResHeader hrtu hunit hfc hbt hrt fun h hlen => ?_
  refine agrees_recv hlen (by omega) fun bytes hbytes _ => ?_
  have hsix : (h ++ bytes).length = 6 := by
    rw [List.length_append, hlen, hbytes]
  generalize h ++ bytes = h at hsix
  rw [run_get2 (by omega) (by omega), run_get2 (by omega) (by omega)]
  refine agrees_recvMsgFooter hrtu hsix (by omega) ?_
  by_cases hfirst : wordAt h 2 = first
  · by_cases hsecond : wordAt h 4 = second
    · rw [if_neg (not_not.mpr hfirst), if_neg (not_not.mpr hsecond),
        if_neg (by simp [hfirst, hsecond])]
      exact .ret ⟨rfl, rfl, rfl, rfl⟩
    · rw [if_neg (not_not.mpr hfirst), if_pos hsecond,
        if_pos (Or.inr hsecond)]
      exact .ret ⟨rfl, rfl, rfl, rfl⟩
  · rw [if_pos hfirst, if_pos (Or.inl hfirst)]
    exact .ret ⟨rfl, rfl, rfl, rfl⟩

/-- Where a check is expected at any place of the buffer. -/
theorem agrees_recvMsgFooter_anywhere
    (hrtu : conf.transport = .nmbsTransportRtu)
    (bt rt : Int32) (buf : ByteMem) (place : Nat)
    (unit fc : UInt8) (broadcast ignored : Bool) (d : δ) :
    Agrees (Same bt rt)
      (orReturn (recvMsgFooter conf) (pure .errorNone)
        (serverAt buf [] place unit fc broadcast ignored bt rt d))
      (if msgBufSize < place then
        .fault
      else
        .ask (LineCall.read 2 bt) fun a =>
          if ¬ Inside place a.stored.length then
            .fault
          else if transferStatus a.ret 2 ≠ .errorNone then
            .ret (transferStatus a.ret 2, d)
          else if a.stored =
              wireBytes (conf.crcCalc (window buf 0 place)) then
            .ret (.errorNone, d)
          else
            .ret (.errorCrc, d)) := by
  have hsize : msgBufSize = 260 := rfl
  rw [orReturn, recvMsgFooter, hrtu]
  simp only [run_bind_assoc, run_inspect]
  by_cases hfit : msgBufSize < place
  · rw [if_pos hfit, run_bind, loadAt,
      if_neg (by rintro (hnone | hin) <;> omega)]
    exact .fault
  · have hlen :
        (window buf 0 place).length = place :=
      length_window _ _ _
    rw [if_neg hfit, run_loadAt (a := 0) (Or.inr (by omega)), orReturn,
      run_bind_assoc, serverAt_window place]
    simp only [storeBytes_nil]
    generalize hmessage : window buf 0 place = message' at hlen
    subst hlen
    rw [run_recv (by omega)]
    refine .ask fun a => ?_
    by_cases hin : Inside message'.length a.stored.length
    · have hroom : ¬ msgBufSize < message'.length + a.stored.length := by
        rcases hin with hnone | hin <;> omega
      rw [if_neg hroom, if_neg (not_not.mpr hin)]
      by_cases hfull : transferStatus a.ret 2 = .errorNone
      · obtain ⟨x, y, hxy⟩ :=
          List.length_eq_two.mp (length_of_errorNone hfull)
        rw [hxy, List.length_cons, List.length_singleton] at hroom
        rw [if_neg (not_not.mpr hfull), if_neg (not_not.mpr hfull), hxy,
          run_bind_assoc, run_get2 (by simp) (by simp; omega),
          window_storeBytes]
        by_cases hcrc : [x, y] = wireBytes (conf.crcCalc message')
        · rw [if_neg (not_not.mpr (wordAt_end_eq_iff.mpr hcrc)),
            if_pos hcrc]
          exact .ret ⟨rfl, rfl, rfl, rfl⟩
        · rw [if_pos fun h => hcrc (wordAt_end_eq_iff.mp h), if_neg hcrc]
          exact .ret ⟨rfl, rfl, rfl, rfl⟩
      · rw [if_pos hfull, if_pos hfull]
        simp only [run_bind, run_pure]
        rw [Dialogue.bind, if_pos hfull]
        exact .ret ⟨rfl, rfl, rfl, rfl⟩
    · have hroom : msgBufSize < message'.length + a.stored.length := by
        rw [Inside] at hin
        omega
      rw [if_pos hroom, if_pos hin]
      exact .fault

theorem agrees_recvWriteFileRecordRes
    (hrtu : conf.transport = .nmbsTransportRtu)
    {s : Server δ} {unit : UInt8}
    (hunit : s.msg.unitId = unit) (hfc : s.msg.fc = 21)
    (hbt : s.byteTimeoutMs = bt) (hrt : s.readTimeoutMs = rt) :
    Agrees (Same bt rt) (recvWriteFileRecordRes conf s)
      (overhearRecords conf.crcCalc bt rt unit s.msg.buf s.device) := by
  have hsize : msgBufSize = 260 := rfl
  refine agrees_recvResHeader hrtu hunit hfc hbt hrt fun h hlen => ?_
  refine agrees_recv hlen (by omega) fun bytes hbytes _ => ?_
  have hthree : (h ++ bytes).length = 3 := by
    rw [List.length_append, hlen, hbytes]
  generalize h ++ bytes = h at hthree
  rw [run_get1 (by omega) (by omega)]
  split
  · exact .ret ⟨rfl, rfl, rfl, rfl⟩
  · rename_i hsmall
    have hcount : (h.getD 2 0).toNat ≤ 251 := by
      exact Nat.le_of_not_lt hsmall
    refine agrees_recv hthree (by omega) fun data hdata _ => ?_
    rw [serverAt_window 260, run_get1 (by simp) (by simp [msgBufSize]),
      run_get2 (by simp) (by simp [msgBufSize]),
      run_get2 (by simp) (by simp [msgBufSize]),
      run_get2 (by simp) (by simp [msgBufSize]), getN]
    simp only [run_bind_assoc, run_inspect, discardN, run_modifyMsg]
    have hlength :
        wordAt (window (storeBytes s.msg.buf 0 (h ++ data)) 0 260) 8 =
          halfword (storeBytes s.msg.buf 0 (h ++ data) 8)
            (storeBytes s.msg.buf 0 (h ++ data) 9) := by
      rw [wordAt, getD_window (by omega), getD_window (by omega)]
    rw [hlength, storeBytes_window]
    generalize storeBytes s.msg.buf 0 (h ++ data) = image
    have hfooter :=
      agrees_recvMsgFooter_anywhere hrtu bt rt image
        ((10 + (halfword (image 8) (image 9)).toNat * 2 % 65536) % 65536)
        unit 21 false false s.device
    rw [serverAt, storeBytes_nil] at hfooter
    exact hfooter

end Responses

section Delivery

variable {δ : Type} {β : Type}
variable {conf : NmbsConf δ}
variable {old : ByteMem} {message : List UInt8} {place : Nat}
variable {unit fc : UInt8} {broadcast ignored : Bool}
variable {bt rt : Int32} {d : δ}

/-- A message that begins with unit and function code. -/
theorem run_putMsgHeader
    (hrtu : conf.transport = .nmbsTransportRtu)
    (n : Nat) (f : PUnit → ServerM δ β) :
    (putMsgHeader conf n >>= f)
        (serverAt old message place unit fc broadcast ignored bt rt d) =
      f ⟨⟩
        (serverAt (storeBytes old 0 message) [unit, fc] [unit, fc].length
          unit fc broadcast ignored bt rt d) := by
  have hsize : msgBufSize = 260 := rfl
  have hstart :
      (put1 unit >>= fun _ => put1 fc >>= f)
          (serverAt (storeBytes old 0 message) [] ([] : List UInt8).length
            unit fc broadcast ignored bt rt d) =
        f ⟨⟩
          (serverAt (storeBytes old 0 message) [unit, fc] [unit, fc].length
            unit fc broadcast ignored bt rt d) := by
    rw [run_put1 (by rw [List.length_nil]; omega), List.nil_append,
      run_put1 (by rw [List.length_singleton]; omega)]
    rfl
  rw [serverAt, storeBytes_nil] at hstart
  rw [← hstart, putMsgHeader, hrtu]
  simp only [run_bind_assoc, msgBufReset, run_modifyMsg, run_inspect]
  rfl

/-- Sending a message is writing it with its check. -/
theorem agrees_sendMsg
    (hrtu : conf.transport = .nmbsTransportRtu)
    (hfit : message.length + 2 ≤ msgBufSize) :
    Agrees (Same bt rt)
      (sendMsg conf
        (serverAt old message message.length unit fc broadcast ignored
          bt rt d))
      (.ask (LineCall.write (withCheck conf.crcCalc message) bt) fun ret =>
        .ret (transferStatus ret (withCheck conf.crcCalc message).length,
          d)) := by
  have hcheck :
      message ++ wireBytes (conf.crcCalc message) =
        withCheck conf.crcCalc message := by
    rfl
  have hlen : (withCheck conf.crcCalc message).length =
      message.length + 2 := by
    rw [← hcheck, List.length_append]
    rfl
  rw [sendMsg, hrtu]
  simp only [run_inspect]
  rw [run_loadAt (a := 0) (Or.inr (by omega)), window_storeBytes,
    run_put2 hfit, run_inspect, hcheck, send]
  rw [run_loadAt (a := 0) (n := (withCheck conf.crcCalc message).length)
      (Or.inr (by omega)),
    window_storeBytes, run_inspect, run_platformWrite]
  exact .ask fun ret => .ret ⟨rfl, rfl, rfl, rfl⟩

theorem agrees_sendExceptionMsg
    (hrtu : conf.transport = .nmbsTransportRtu) (code : NmbsError)
    (hunit : broadcast = decide (unit = nmbsBroadcastAddress)) :
    Agrees (Same bt rt)
      (sendExceptionMsg conf code.byte
        (serverAt old message place unit fc broadcast ignored bt rt d))
      (deliver conf.crcCalc bt unit fc (.exception code) d) := by
  have hsize : msgBufSize = 260 := rfl
  subst hunit
  rw [sendExceptionMsg, run_inspect, deliver]
  by_cases hbroadcast : unit = nmbsBroadcastAddress
  · rw [if_pos hbroadcast, if_pos (by simp [hbroadcast])]
    exact .ret ⟨rfl, rfl, rfl, rfl⟩
  · rw [if_neg hbroadcast, if_neg (by simp [hbroadcast]), run_modifyMsg,
      run_putMsgHeader hrtu, run_put1 (by simp [hsize])]
    exact agrees_sendMsg hrtu (by simp [hsize])

theorem agrees_sendCallbackError
    (hrtu : conf.transport = .nmbsTransportRtu) (err : NmbsError)
    (hunit : broadcast = decide (unit = nmbsBroadcastAddress)) :
    Agrees (Same bt rt)
      (sendCallbackError conf err
        (serverAt old message place unit fc broadcast ignored bt rt d))
      (deliver conf.crcCalc bt unit fc
        (.exception (callbackException err)) d) := by
  rw [sendCallbackError, callbackException]
  split
  · exact agrees_sendExceptionMsg hrtu err hunit
  · exact agrees_sendExceptionMsg hrtu _ hunit

theorem agrees_sendWriteResponse
    (hrtu : conf.transport = .nmbsTransportRtu) (first second : UInt16)
    (hunit : broadcast = decide (unit = nmbsBroadcastAddress)) :
    Agrees (Same bt rt)
      (sendWriteResponse conf first second
        (serverAt old message place unit fc broadcast ignored bt rt d))
      (deliver conf.crcCalc bt unit fc
        (.response (wireBytes first ++ wireBytes second)) d) := by
  have hsize : msgBufSize = 260 := rfl
  subst hunit
  rw [sendWriteResponse, run_inspect, deliver]
  by_cases hbroadcast : unit = nmbsBroadcastAddress
  · rw [if_pos hbroadcast, if_pos (by simp [hbroadcast])]
    exact .ret ⟨rfl, rfl, rfl, rfl⟩
  · rw [if_neg hbroadcast, if_neg (by simp [hbroadcast]),
      run_putMsgHeader hrtu, run_put2 (by simp [hsize]),
      run_put2 (by simp [hsize, wireBytes])]
    exact agrees_sendMsg hrtu (by simp [hsize, wireBytes])

end Delivery

section Answers

variable {δ : Type}
variable {conf : NmbsConf δ}
variable {old : ByteMem} {message : List UInt8} {place : Nat}
variable {unit : UInt8} {broadcast ignored : Bool}
variable {bt rt : Int32} {d : δ}

theorem agrees_answerReadRegisters
    (hrtu : conf.transport = .nmbsTransportRtu)
    (address quantity : UInt16)
    (hunit : broadcast = decide (unit = nmbsBroadcastAddress)) :
    Agrees (Same bt rt)
      (answerReadRegisters conf conf.callbacks.readHoldingRegisters
        address quantity
        (serverAt old message place unit 3 broadcast ignored bt rt d))
      (deliver conf.crcCalc bt unit 3
        (serveRead conf.callbacks unit address quantity d).1
        (serveRead conf.callbacks unit address quantity d).2) := by
  have hsize : msgBufSize = 260 := rfl
  unfold answerReadRegisters serveRead
  by_cases hquantity : quantity < 1 ∨ quantity > 125
  · simp only [if_pos hquantity]
    exact agrees_sendExceptionMsg hrtu _ hunit
  · simp only [if_neg hquantity]
    by_cases hend : address.toNat + quantity.toNat > 0xFFFF + 1
    · simp only [if_pos hend]
      exact agrees_sendExceptionMsg hrtu _ hunit
    · simp only [if_neg hend]
      cases hcb : conf.callbacks.readHoldingRegisters with
      | none =>
          exact agrees_sendExceptionMsg hrtu _ hunit
      | some cb =>
          simp only [run_inspect, run_callback]
          generalize cb d address quantity (fun _ => 0) unit = r
          by_cases herr : r.1.1 = .errorNone
          · simp only [ne_eq, herr, not_true_eq_false, if_false, hunit,
              run_inspect]
            rw [deliver]
            by_cases hbroadcast : unit = nmbsBroadcastAddress
            · simp only [hbroadcast, decide_true, if_true]
              exact .ret ⟨rfl, rfl, rfl, rfl⟩
            · have hmost : quantity.toNat ≤ 125 := by
                exact Nat.le_of_not_lt fun h => hquantity (Or.inr h)
              simp only [hbroadcast, decide_false, Bool.false_eq_true,
                if_false]
              rw [run_putMsgHeader hrtu, run_put1 (by simp [hsize]),
                run_putWords (by simp [hsize]; omega)]
              refine agrees_sendMsg hrtu ?_
              simp [hsize]
              omega
          · simp only [ne_eq, herr, not_false_eq_true, if_true]
            exact agrees_sendCallbackError hrtu _ hunit

theorem agrees_answerWriteSingleRegister
    (hrtu : conf.transport = .nmbsTransportRtu)
    (address value : UInt16)
    (hunit : broadcast = decide (unit = nmbsBroadcastAddress)) :
    Agrees (Same bt rt)
      (answerWriteSingleRegister conf address value
        (serverAt old message place unit 6 broadcast ignored bt rt d))
      (deliver conf.crcCalc bt unit 6
        (serveWrite conf.callbacks unit address value d).1
        (serveWrite conf.callbacks unit address value d).2) := by
  unfold answerWriteSingleRegister serveWrite
  cases hcb : conf.callbacks.writeSingleRegister with
  | none =>
      exact agrees_sendExceptionMsg hrtu _ hunit
  | some cb =>
      simp only [run_inspect, run_callback]
      generalize cb d address value unit = r
      by_cases herr : r.1 = .errorNone
      · simp only [ne_eq, herr, not_true_eq_false, if_false]
        exact agrees_sendWriteResponse hrtu _ _ hunit
      · simp only [ne_eq, herr, not_false_eq_true, if_true]
        exact agrees_sendCallbackError hrtu _ hunit

theorem agrees_answerWriteMultipleRegisters
    (hrtu : conf.transport = .nmbsTransportRtu)
    (address quantity : UInt16) (byteCount : UInt8) (data : List UInt8)
    (hunit : broadcast = decide (unit = nmbsBroadcastAddress)) :
    Agrees (Same bt rt)
      (answerWriteMultipleRegisters conf address quantity byteCount
        (wireHalfwords data)
        (serverAt old message place unit 16 broadcast ignored bt rt d))
      (deliver conf.crcCalc bt unit 16
        (serveWrites conf.callbacks unit address quantity byteCount
          data d).1
        (serveWrites conf.callbacks unit address quantity byteCount
          data d).2) := by
  unfold answerWriteMultipleRegisters serveWrites
  by_cases hquantity : quantity < 1 ∨ quantity > 0x007B
  · simp only [if_pos hquantity]
    exact agrees_sendExceptionMsg hrtu _ hunit
  · simp only [if_neg hquantity]
    by_cases hend : address.toNat + quantity.toNat > 0xFFFF + 1
    · simp only [if_pos hend]
      exact agrees_sendExceptionMsg hrtu _ hunit
    · simp only [if_neg hend]
      by_cases hcount : byteCount.toNat = quantity.toNat * 2
      · have hpositive : byteCount ≠ 0 := by
          rintro rfl
          have hone : 1 ≤ quantity.toNat := by
            exact Nat.le_of_not_lt fun h => hquantity (Or.inl h)
          have hzero : (0 : UInt8).toNat = 0 := rfl
          omega
        simp only [if_neg hpositive, hcount, ne_eq, not_true_eq_false,
          if_false]
        cases hcb : conf.callbacks.writeMultipleRegisters with
        | none =>
            exact agrees_sendExceptionMsg hrtu _ hunit
        | some cb =>
            simp only [run_inspect, run_callback]
            generalize cb d address quantity (wireHalfwords data) unit = r
            by_cases herr : r.1 = .errorNone
            · simp only [herr, not_true_eq_false, if_false]
              exact agrees_sendWriteResponse hrtu _ _ hunit
            · simp only [herr, not_false_eq_true, if_true]
              exact agrees_sendCallbackError hrtu _ hunit
      · simp only [ne_eq, hcount, not_false_eq_true, if_true]
        split
        · exact agrees_sendExceptionMsg hrtu _ hunit
        · exact agrees_sendExceptionMsg hrtu _ hunit

end Answers

end Port
end ModbusRtu
