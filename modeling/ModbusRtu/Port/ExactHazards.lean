import ModbusRtu.Port.LineContract

/-!
# Where a poll goes wrong

The hazards of a line are not only the places where a poll may go wrong, they
are exactly the places where it does: whatever has been heard there, there are
answers of the line that lead to it. So of the situations in which a poll runs
into an undefined access of its buffer none is missing and none is too many.

The first kind does not depend on the unit or on the check. A write of several
registers that claims 254 or 255 bytes of them is received to the end before its
byte count is looked at, and its last bytes are stored behind the buffer.
-/

namespace ModbusRtu
namespace Port

open Kernel

section Answers

variable {δ ε : Type}
variable {env : Environment LineCall LineAnswer ε}
variable {crcCalc : List UInt8 → UInt16}
variable {bt t : Int32}
variable {wrong : ε → Prop}
variable {e e' : ε} {d : δ}
variable {post : NmbsError × δ → ε → Prop}

/-- The answer that stores given bytes. -/
def storing (n : Nat) (bytes : List UInt8) (hlen : bytes.length ≤ n) :
    ReadAnswer n where
  ret := bytes.length
  stored := bytes
  length_stored_le := hlen
  ret_eq := Or.inl rfl

theorem transferStatus_all (n : Nat) :
    transferStatus (n : Int) n = .errorNone := by
  rw [transferStatus, if_pos rfl]

/-- The bytes asked for may be heard. -/
theorem ends_of_listen
    (bytes : List UInt8) {n : Nat} {heard : List UInt8}
    {next : List UInt8 → Conduct δ} (hlen : bytes.length = n)
    (hfit : heard.length + n ≤ msgBufSize)
    (hanswer : env e (.read n t) (storing n bytes (Nat.le_of_eq hlen)) e')
    (h : Ends env wrong (listen n t heard d next) e post) :
    Ends env wrong (next (heard ++ bytes)) e' post := by
  subst hlen
  have hread := h _ _ hanswer
  dsimp only [storing] at hread
  rwa [if_neg (Nat.not_lt.mpr hfit), if_pos (transferStatus_all _)] at hread

/-- So may bytes that do not fit. -/
theorem wrong_of_listen
    (bytes : List UInt8) {n : Nat} {heard : List UInt8}
    {next : List UInt8 → Conduct δ} (hlen : bytes.length ≤ n)
    (hlong : msgBufSize < heard.length + bytes.length)
    (hanswer : env e (.read n t) (storing n bytes hlen) e')
    (h : Ends env wrong (listen n t heard d next) e post) :
    wrong e' := by
  have hread := h _ _ hanswer
  dsimp only [storing] at hread
  rwa [if_pos hlong] at hread

/-- So may the right check. -/
theorem ends_of_listenCheck
    {heard : List UInt8} {next : Conduct δ}
    (hanswer : env e (.read 2 bt)
      (storing 2 (wireBytes (crcCalc heard)) (Nat.le_refl 2)) e')
    (h : Ends env wrong (listenCheck crcCalc bt heard d next) e post) :
    Ends env wrong next e' post := by
  have hall : transferStatus ((wireBytes (crcCalc heard)).length : Int) 2 =
      .errorNone := transferStatus_all 2
  have hread := h _ _ hanswer
  dsimp only [storing] at hread
  rwa [if_neg (not_not.mpr hall), if_pos rfl] at hread

variable {conf : NmbsConf δ}
variable {rt : Int32} {old : ByteMem}

/-- Any unit and function code may be heard. -/
theorem ends_of_frameServer
    (unit fc : UInt8) {e'' : ε}
    (hfirst : env e (.read 1 rt) (storing 1 [unit] (Nat.le_refl 1)) e')
    (hsecond : env e' (.read 1 bt) (storing 1 [fc] (Nat.le_refl 1)) e'')
    (h : Ends env wrong (frameServer conf bt rt old d) e post) :
    Ends env wrong (hearRequest conf bt rt unit fc old d) e'' fun r e' =>
      Ends env wrong (dropRest r) e' post := by
  have hsize : msgBufSize = 260 := rfl
  have hall : transferStatus ([unit].length : Int) 1 = .errorNone :=
    transferStatus_all 1
  have hread := h _ _ hfirst
  dsimp only [storing] at hread
  rw [if_neg (not_not.mpr hall)] at hread
  have hheard := ends_of_listen [fc] rfl (by simp [hsize]) hsecond hread
  exact ends_bind.mp hheard

end Answers

section Hazards

variable {δ : Type}
variable {conf : NmbsConf δ}
variable {bt rt : Int32}
variable {wrong : Line → Prop}
variable {line : Line} {old : ByteMem} {d : δ}
variable {post : NmbsError × δ → Line → Prop}

theorem ends_of_opening
    (unit fc : UInt8)
    (h : Ends anyLine wrong (frameServer conf bt rt old d) line post) :
    Ends anyLine wrong (hearRequest conf bt rt unit fc old d)
      (line.hear [unit, fc]) fun r line' =>
        Ends anyLine wrong (dropRest r) line' post := by
  have hbytes : line.hear [unit, fc] = (line.hear [unit]).hear [fc] :=
    (Line.hear_hear line [unit] [fc]).symm
  rw [hbytes]
  exact ends_of_frameServer unit fc rfl rfl h

theorem wrong_of_registers
    {unit byteCount : UInt8} {fields data : List UInt8}
    (hfields : fields.length = 4)
    (hcount : data.length ≤ byteCount.toNat)
    (hlong : msgBufSize < 7 + data.length)
    (h : Ends anyLine wrong (hearRequest conf bt rt unit 16 old d) line
      post) :
    wrong (line.hear (fields ++ byteCount :: data)) := by
  have hsize : msgBufSize = 260 := rfl
  have hfive : (fields ++ [byteCount]).length = 5 := by
    rw [List.length_append, hfields]
    rfl
  rw [hearRequest, if_neg (by decide), if_neg (by decide), if_pos rfl] at h
  have hheard := ends_of_listen _ hfive (by simp [hsize]) rfl h
  have hbyte : ([unit, 16] ++ (fields ++ [byteCount])).getD 6 0 =
      byteCount := by
    rw [← List.append_assoc, List.getD_append_right _ _ _ 6]
    · simp [hfields]
    · simp [hfields]
  have hpast : msgBufSize <
      ([unit, 16] ++ (fields ++ [byteCount])).length + data.length := by
    simp only [List.length_append, hfields, List.length_cons,
      List.length_nil]
    omega
  rw [hbyte] at hheard
  have hwrong := wrong_of_listen data hcount hpast rfl hheard
  have hbytes : fields ++ byteCount :: data =
      (fields ++ [byteCount]) ++ data := by
    simp
  rw [hbytes, ← Line.hear_hear]
  exact hwrong

/-- The fields of a file request may be heard, with their check. -/
theorem ends_of_hearRecords
    {unit : UInt8} {data : List UInt8} (hsmall : data.length ≤ 251)
    (h : Ends anyLine wrong (hearRequest conf bt rt unit 21 old d)
      (line.hear [unit, 21]) post) :
    Ends anyLine wrong
      (meetRequest conf bt rt unit old (.writeRecords data) d)
      (line.hear (withCheck conf.crcCalc
        (Request.body unit (.writeRecords data)))) post := by
  have hsize : msgBufSize = 260 := rfl
  have hcount : (UInt8.ofNat data.length).toNat = data.length := by
    rw [UInt8.toNat_ofNat']
    omega
  have hlarge : ¬ UInt8.ofNat data.length > 251 := by
    rw [gt_iff_lt, UInt8.lt_iff_toNat_lt, hcount]
    exact Nat.not_lt.mpr hsmall
  rw [hearRequest, if_neg (by decide), if_neg (by decide),
    if_neg (by decide), if_pos rfl] at h
  have hfield := ends_of_listen [UInt8.ofNat data.length] rfl
    (by simp [hsize]) rfl h
  simp only [List.cons_append, List.nil_append, List.getD_cons_succ,
    List.getD_cons_zero, if_neg hlarge] at hfield
  have hdata := ends_of_listen data hcount.symm
    (by simp [hsize, hcount]; omega) rfl hfield
  have hmet := ends_of_listenCheck rfl hdata
  simp only [Line.hear_hear] at hmet
  exact hmet

theorem wrong_of_overhearRecords
    {unit : UInt8} {buf : ByteMem} {h bytes : List UInt8}
    (hpast : PastEnd unit buf h bytes)
    (hends : Ends anyLine wrong
      (overhearRecords conf.crcCalc bt rt unit buf d) line post) :
    wrong (line.hear (h ++ bytes)) := by
  have hsize : msgBufSize = 260 := rfl
  rcases hpast with ⟨hunit, hfc, hsmall, hlen, hplace, htwo, hatOnce⟩
  match h, hunit, hfc, hsmall, hlen, hplace, hatOnce with
  | [], _, _, _, hlen, _, _ | [_], _, _, _, hlen, _, _
  | [_, _], _, _, _, hlen, _, _ =>
      simp at hlen
  | a :: b :: c :: rest, hunit, hfc, hsmall, hlen, hplace, hatOnce =>
      obtain rfl : a = unit := hunit
      obtain rfl : b = 21 := hfc
      have hcount : c.toNat ≤ 251 := hsmall
      have hrest : rest.length = c.toNat := by
        simp only [List.length_cons, List.getD_cons_succ,
          List.getD_cons_zero] at hlen
        omega
      have hlarge : ¬ c > 251 := by
        rw [gt_iff_lt, UInt8.lt_iff_toNat_lt]
        exact Nat.not_lt.mpr hcount
      rw [overhearRecords, overhearHeader] at hends
      have hfirst := ends_of_listen [a] rfl (by simp [hsize]) rfl hends
      have hsecond := ends_of_listen [21] rfl (by simp [hsize]) rfl hfirst
      simp only [List.nil_append, List.cons_append, List.getD_cons_zero,
        List.getD_cons_succ, ne_eq, not_true_eq_false, if_false,
        if_true] at hsecond
      have hthird := ends_of_listen [c] rfl (by simp [hsize]) rfl hsecond
      simp only [List.nil_append, List.cons_append, List.getD_cons_zero,
        List.getD_cons_succ, if_neg hlarge] at hthird
      have hfourth := ends_of_listen rest hrest (by simp [hsize]; omega)
        rfl hthird
      simp only [Line.hear_hear] at hfourth
      change Ends anyLine wrong
        (if msgBufSize < checkPlace (storeBytes buf 0 (a :: 21 :: c ::
          rest)) then .fault else _) _ _ at hfourth
      by_cases hbehind : msgBufSize <
          checkPlace (storeBytes buf 0 (a :: 21 :: c :: rest))
      · rw [if_pos hbehind] at hfourth
        rw [hatOnce hbehind, List.append_nil]
        exact hfourth
      · rw [if_neg hbehind] at hfourth
        have hcheck := hfourth (storing 2 bytes htwo) _ rfl
        have houtside : ¬ Inside
            (checkPlace (storeBytes buf 0 (a :: 21 :: c :: rest)))
            bytes.length := by
          rw [Inside]
          omega
        change Ends anyLine wrong
          (if ¬ Inside (checkPlace (storeBytes buf 0 (a :: 21 :: c ::
            rest))) bytes.length then .fault else _) _ _ at hcheck
        rw [if_pos houtside, Line.hear_hear] at hcheck
        exact hcheck

/-- Each hazard is a place where the server on frames goes wrong. -/
theorem wrong_of_hazard
    {bytes : List UInt8} (hhazard : Hazard conf old d bytes)
    (h : Ends anyLine wrong (frameServer conf bt rt old d) line post) :
    wrong (line.hear bytes) := by
  cases hhazard with
  | @registers unit byteCount fields data hfields hcount hlong =>
      have hwrong := wrong_of_registers hfields hcount hlong
        (ends_of_opening unit 16 h)
      rw [Line.hear_hear, ← List.append_assoc] at hwrong
      exact hwrong
  | @records unit data hours hsmall hserve =>
      have hmet := ends_of_hearRecords hsmall
        (ends_of_opening unit 21 h)
      rw [meetRequest, if_pos hours] at hmet
      have hnone : serve conf.callbacks unit
          (window (storeBytes old 0 (withCheck conf.crcCalc
            (Request.body unit (.writeRecords data))))
            (Request.body unit (.writeRecords data)).length
            (msgBufSize - (Request.body unit (.writeRecords data)).length))
          (.writeRecords data) d = none := hserve
      dsimp only at hmet
      rw [hnone] at hmet
      exact hmet
  | @overheard unit data heard behind hother hsmall hpast =>
      have hmet := ends_of_hearRecords hsmall
        (ends_of_opening unit 21 h)
      rw [meetRequest, if_neg hother] at hmet
      have hwrong := wrong_of_overhearRecords hpast hmet
      rw [Line.hear_hear, ← List.append_assoc] at hwrong
      exact hwrong

/--
A poll goes wrong exactly in the hazards: a condition holds wherever it goes
wrong, whatever the line answers, if and only if it holds in every hazard.
-/
theorem poll_goes_wrong_iff
    (hrtu : conf.transport = .nmbsTransportRtu) (s : Server δ)
    (line : Line) (wrong : Line → Prop) :
    Leads anyLine wrong (nmbsServerPoll conf) s line (fun _ _ _ => True) ↔
      ∀ bytes, Hazard conf s.msg.buf s.device bytes →
        wrong (line.hear bytes) := by
  constructor
  · intro hpoll bytes hhazard
    exact wrong_of_hazard hhazard ((poll_agrees hrtu s).ends_of_ends hpoll)
  · intro hwrong
    refine (poll_contract hrtu s line).mono (fun _ _ _ _ => trivial) ?_
    rintro line' ⟨bytes, hhazard, rfl⟩
    exact hwrong bytes hhazard

/-- A frame for any unit, with 254 bytes of registers, is a hazard. -/
theorem poll_goes_wrong_on_long_frame :
    ¬ Leads anyLine (fun _ => False) (nmbsServerPoll bareConf) bareServer
      ⟨[], []⟩ (fun _ _ _ => True) := by
  intro hpoll
  have hwrong := (@poll_goes_wrong_iff Unit bareConf rfl bareServer ⟨[], []⟩
    fun _ => False).mp hpoll
  refine hwrong ([7, 16] ++ [0, 0, 0, 127] ++ 254 :: List.replicate 254 0)
    (.registers rfl ?_ ?_)
  · rw [List.length_replicate]
    decide
  · rw [List.length_replicate]
    decide

end Hazards

end Port
end ModbusRtu
