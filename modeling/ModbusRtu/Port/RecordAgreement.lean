import ModbusRtu.Port.ServerAgreement

/-!
# The loops of a file request

handle_write_file_record goes through the records of a request twice: a first
loop checks their fields and counts the bytes, a second one swaps the registers
of each record in place, hands them to the callback and swaps them back.

The first loop subtracts in 16 bits. A record that runs past the end of the
request takes the size below zero, the loop goes on with what is left in the
buffer, and the size stays so large that the loop can end only with an exception
or outside the buffer. Where no record does so the two loops see the same
entries, and the buffer is as before behind a second loop without errors.
-/

namespace ModbusRtu
namespace Port

open Kernel

section Swapping

/-- Memory with the bytes of n halfwords from an address on exchanged. -/
def swapPairs (m : ByteMem) (a n : Nat) : ByteMem :=
  fun k =>
    if a ≤ k ∧ k < a + 2 * n then
      if (k - a) % 2 = 0 then m (k + 1) else m (k - 1)
    else
      m k

@[simp] theorem swapPairs_zero (m : ByteMem) (a : Nat) :
    swapPairs m a 0 = m := by
  funext k
  rw [swapPairs, if_neg (by omega)]

/-- Swapping twice restores the memory. -/
theorem swapPairs_swapPairs (m : ByteMem) (a n : Nat) :
    swapPairs (swapPairs m a n) a n = m := by
  funext k
  simp only [swapPairs]
  by_cases hin : a ≤ k ∧ k < a + 2 * n
  · rw [if_pos hin]
    by_cases heven : (k - a) % 2 = 0
    · rw [if_pos heven, if_pos (by omega), if_neg (by omega)]
      rfl
    · rw [if_neg heven, if_pos (by omega), if_pos (by omega)]
      congr 1
      omega
  · rw [if_neg hin, if_neg hin]

/-- The last halfword first, then those below it. -/
theorem swapPairs_succ (m : ByteMem) (a n : Nat) :
    swapPairs
        (storeBytes m (a + 2 * n) [m (a + 2 * n + 1), m (a + 2 * n)]) a n =
      swapPairs m a (n + 1) := by
  have hhigh :
      storeBytes m (a + 2 * n) [m (a + 2 * n + 1), m (a + 2 * n)]
          (a + 2 * n) = m (a + 2 * n + 1) := by
    rw [storeBytes_inside (Nat.le_refl _) (by simp), Nat.sub_self]
    rfl
  have hlow :
      storeBytes m (a + 2 * n) [m (a + 2 * n + 1), m (a + 2 * n)]
          (a + 2 * n + 1) = m (a + 2 * n) := by
    rw [storeBytes_inside (by omega) (by simp), Nat.add_sub_cancel_left]
    rfl
  have helse : ∀ k, k < a + 2 * n ∨ a + 2 * n + 2 ≤ k →
      storeBytes m (a + 2 * n) [m (a + 2 * n + 1), m (a + 2 * n)] k =
        m k := by
    intro k hk
    exact storeBytes_outside (by simpa using hk)
  funext k
  simp only [swapPairs]
  by_cases hin : a ≤ k ∧ k < a + 2 * n
  · have hwider : a ≤ k ∧ k < a + 2 * (n + 1) := by
      omega
    rw [if_pos hin, if_pos hwider]
    split
    · exact helse _ (by omega)
    · exact helse _ (by omega)
  · rw [if_neg hin]
    by_cases hfirst : k = a + 2 * n
    · subst hfirst
      rw [if_pos (by omega), if_pos (by omega), hhigh]
    · by_cases hsecond : k = a + 2 * n + 1
      · subst hsecond
        rw [if_pos (by omega), if_neg (by omega), hlow]
        congr 1
      · rw [if_neg (by omega), helse k (by omega)]

/-- On the little-endian host a swapped halfword has its high byte first. -/
theorem hostHalfword_swapPairs
    {m : ByteMem} {a n i : Nat} (hi : i < n) :
    hostHalfword (swapPairs m a n) (a + 2 * i) =
      halfword (m (a + 2 * i)) (m (a + 2 * i + 1)) := by
  simp only [hostHalfword, swapPairs]
  rw [if_pos (by omega), if_neg (by omega), if_pos (by omega),
    if_pos (by omega)]
  rfl

variable {δ : Type} {β : Type}

theorem run_swapRegs
    {a n : Nat} (heven : a % 2 = 0) (hfit : a + 2 * n ≤ msgBufSize)
    (f : PUnit → ServerM δ β) (s : Server δ) :
    (swapRegs a n >>= f) s =
      f ⟨⟩ { s with
        msg := { s.msg with buf := swapPairs s.msg.buf a n } } := by
  induction n generalizing s with
  | zero =>
      rw [swapPairs_zero]
      rfl
  | succ n ih =>
      rw [swapRegs, run_bind_assoc, swapReg, if_pos (by omega),
        run_modifyMsg, ih (by omega)]
      simp only [swapPairs_succ]

/-- A halfword access at an odd address is not defined. -/
theorem run_swapRegs_odd
    {a n : Nat} (hodd : a % 2 = 1) (hn : 0 < n)
    (f : PUnit → ServerM δ β) (s : Server δ) :
    (swapRegs a n >>= f) s = .fault := by
  obtain ⟨k, rfl⟩ := Nat.exists_eq_succ_of_ne_zero (Nat.ne_of_gt hn)
  rw [swapRegs, run_bind_assoc, swapReg, if_neg (by omega)]
  rfl

end Swapping

section Fields

variable {δ : Type} {β : Type}
variable {old : ByteMem} {message : List UInt8} {place : Nat}
variable {unit fc : UInt8} {broadcast ignored : Bool}
variable {bt rt : Int32} {d : δ}

theorem run_get1_outside
    (hplace : msgBufSize ≤ place) (f : UInt8 → ServerM δ β) :
    (get1 >>= f)
        (serverAt old message place unit fc broadcast ignored bt rt d) =
      .fault := by
  have hout : ¬ Inside place 1 := by
    rintro (hnone | hin) <;> omega
  rw [get1, run_bind_assoc, run_inspect, run_bind_assoc, loadAt,
    if_neg hout]
  rfl

theorem run_get2_outside
    (hplace : msgBufSize < place + 2) (f : UInt16 → ServerM δ β) :
    (get2 >>= f)
        (serverAt old message place unit fc broadcast ignored bt rt d) =
      .fault := by
  have hout : ¬ Inside place 2 := by
    rintro (hnone | hin) <;> omega
  rw [get2, run_bind_assoc, run_inspect, run_bind_assoc, loadAt,
    if_neg hout]
  rfl

/-- The fields in front of a record's registers, inside the buffer. -/
theorem run_recordFields
    (hmessage : message.length = msgBufSize)
    (hplace : place + 7 ≤ msgBufSize)
    (f : UInt8 → UInt16 → UInt16 → UInt16 → ServerM δ β) :
    (get1 >>= fun t => get2 >>= fun x => get2 >>= fun y =>
        get2 >>= fun z => f t x y z)
        (serverAt old message place unit fc broadcast ignored bt rt d) =
      f (message.getD place 0) (wordAt (message.drop place) 1)
        (wordAt (message.drop place) 3) (wordAt (message.drop place) 5)
        (serverAt old message (place + 7) unit fc broadcast ignored
          bt rt d) := by
  have hword : ∀ i,
      wordAt message (place + i) = wordAt (message.drop place) i := by
    intro i
    simp only [wordAt, List.getD_eq_getElem?_getD, List.getElem?_drop]
    rfl
  rw [run_get1 (by omega) (by omega), run_get2 (by omega) (by omega),
    run_get2 (by omega) (by omega), run_get2 (by omega) (by omega),
    hword 1, hword 3, hword 5]

theorem run_recordFields_outside
    (hmessage : message.length = msgBufSize)
    (hplace : msgBufSize < place + 7)
    (f : UInt8 → UInt16 → UInt16 → UInt16 → ServerM δ β) :
    (get1 >>= fun t => get2 >>= fun x => get2 >>= fun y =>
        get2 >>= fun z => f t x y z)
        (serverAt old message place unit fc broadcast ignored bt rt d) =
      .fault := by
  by_cases hfirst : msgBufSize ≤ place
  · exact run_get1_outside hfirst _
  · rw [run_get1 (by omega) (by omega)]
    by_cases hsecond : msgBufSize < place + 1 + 2
    · exact run_get2_outside hsecond _
    · rw [run_get2 (by omega) (by omega)]
      by_cases hthird : msgBufSize < place + 1 + 2 + 2
      · exact run_get2_outside hthird _
      · rw [run_get2 (by omega) (by omega)]
        exact run_get2_outside (by omega) _

end Fields

section Front

theorem wordAt_take {bytes : List UInt8} {n i : Nat} (hi : i + 1 < n) :
    wordAt (bytes.take n) i = wordAt bytes i := by
  simp only [wordAt, List.getD_eq_getElem?_getD]
  rw [List.getElem?_take_of_lt (by omega), List.getElem?_take_of_lt hi]

/-- The fields of a record are in its first seven bytes. -/
theorem acceptable_take {bytes : List UInt8} {n : Nat} (hn : 7 ≤ n) :
    Acceptable (bytes.take n) ↔ Acceptable bytes := by
  have hfirst : (bytes.take n).getD 0 0 = bytes.getD 0 0 := by
    simp only [List.getD_eq_getElem?_getD]
    rw [List.getElem?_take_of_lt (by omega)]
  rw [Acceptable, hfirst, wordAt_take (by omega), wordAt_take (by omega),
    wordAt_take (by omega)]
  rfl

theorem entryLength_take {bytes : List UInt8} {n : Nat} (hn : 7 ≤ n) :
    entryLength (bytes.take n) = entryLength bytes := by
  rw [entryLength, wordAt_take (by omega)]
  rfl

theorem entryOf_take {bytes : List UInt8} {n : Nat}
    (hn : entryLength bytes ≤ n) :
    entryOf (bytes.take n) = entryOf bytes := by
  have hlen : entryLength bytes = 7 + 2 * (wordAt bytes 5).toNat := rfl
  have hregisters :
      ((bytes.take n).drop 7).take (2 * (wordAt bytes 5).toNat) =
        (bytes.drop 7).take (2 * (wordAt bytes 5).toNat) := by
    rw [List.drop_take, List.take_take, Nat.min_eq_left (by omega)]
  simp only [entryOf, wordAt_take (by omega : 1 + 1 < n),
    wordAt_take (by omega : 3 + 1 < n), wordAt_take (by omega : 5 + 1 < n),
    hregisters]

theorem scanStale_ne_entries
    (fuel : Nat) (stale : List UInt8) (es : List FileEntry) :
    scanStale fuel stale ≠ .entries es := by
  induction fuel generalizing stale with
  | zero =>
      simp [scanStale]
  | succ fuel ih =>
      rw [scanStale]
      split
      · simp
      · split
        · exact ih _
        · simp

theorem Scan.cons_eq_entries {e : FileEntry} {scan : Scan}
    {es : List FileEntry} (h : scan.cons e = .entries es) :
    ∃ es', es = e :: es' ∧ scan = .entries es' := by
  cases scan with
  | undefined =>
      cases h
  | refused exception =>
      cases h
  | entries es' =>
      cases h
      exact ⟨es', rfl, rfl⟩

/-- A scan that succeeds has the first entry inside the request. -/
theorem scanEntries_eq_entries
    {fuel : Nat} {data stale : List UInt8} {es : List FileEntry}
    (h : scanEntries fuel.succ data stale = .entries es) :
    7 ≤ data.length ∧ Acceptable data ∧ entryLength data ≤ data.length ∧
      (data.length = entryLength data ∧ es = [entryOf data] ∨
        ∃ es', es = entryOf data :: es' ∧
          scanEntries fuel (data.drop (entryLength data)) stale =
            .entries es') := by
  rw [scanEntries] at h
  split at h
  · cases h
  · split at h
    · rename_i hacceptable
      split at h
      · exact absurd h (scanStale_ne_entries _ _ _)
      · split at h
        · cases h
          exact ⟨by omega, hacceptable, by omega, Or.inl ⟨‹_›, rfl⟩⟩
        · obtain ⟨es', rfl, htail⟩ := Scan.cons_eq_entries h
          exact ⟨by omega, hacceptable, by omega, Or.inr ⟨es', rfl, htail⟩⟩
    · cases h

end Front

section Checking

variable {δ : Type}
variable {old : ByteMem} {message : List UInt8} {place : Nat}
variable {unit fc : UInt8} {broadcast ignored : Bool}
variable {bt rt : Int32} {d : δ}

theorem restSize_of_le
    {size : Nat} {len : UInt16}
    (hsize : size < 65536) (hle : 7 + 2 * len.toNat ≤ size) :
    restSize size len = size - (7 + 2 * len.toNat) := by
  rw [restSize]
  omega

/-- Below zero the size wraps around. -/
theorem restSize_of_lt
    {size : Nat} {len : UInt16}
    (hlen : len.toNat ≤ 122) (hlt : size < 7 + 2 * len.toNat) :
    restSize size len = size + 65536 - (7 + 2 * len.toNat) := by
  rw [restSize]
  omega

theorem Acceptable.length_le {bytes : List UInt8} (h : Acceptable bytes) :
    (wordAt bytes 5).toNat ≤ 122 := by
  exact h.2.2.2

/-- One pass of the checking loop. -/
theorem run_checkRecords_succ
    (hmessage : message.length = msgBufSize)
    (hplace : place + 7 ≤ msgBufSize) (fuel size : Nat) :
    checkRecords fuel.succ size
        (serverAt old message place unit fc broadcast ignored bt rt d) =
      if Acceptable (message.drop place) then
        if restSize size (wordAt (message.drop place) 5) ≥ 7 then
          checkRecords fuel
            (restSize size (wordAt (message.drop place) 5))
            (serverAt old message
              (place + entryLength (message.drop place)) unit fc
              broadcast ignored bt rt d)
        else
          .ret (.ok (restSize size (wordAt (message.drop place) 5)),
            serverAt old message
              (place + entryLength (message.drop place)) unit fc
              broadcast ignored bt rt d)
      else
        .ret (.error .exceptionIllegalDataAddress,
          serverAt old message
            ((place + 7 + (wordAt (message.drop place) 5).toNat * 2) %
              65536) unit fc broadcast ignored bt rt d) := by
  have hsize : msgBufSize = 260 := rfl
  have hfirst :
      message.getD place 0 = (message.drop place).getD 0 0 := by
    simp only [List.getD_eq_getElem?_getD, List.getElem?_drop,
      Nat.add_zero]
  rw [checkRecords, run_recordFields hmessage hplace, discardN,
    run_modifyMsg, hfirst]
  generalize message.drop place = bytes
  by_cases hacceptable : Acceptable bytes
  · have hlen := hacceptable.length_le
    have hfields := hacceptable
    obtain ⟨htype, hfile, hrecord, hlength⟩ := hfields
    have hplace' :
        (place + 7 + (wordAt bytes 5).toNat * 2) % 65536 =
          place + entryLength bytes := by
      rw [entryLength]
      omega
    rw [if_pos hacceptable, if_neg (not_not.mpr htype), if_neg hfile,
      if_neg (UInt16.not_lt.mpr hrecord),
      if_neg (UInt16.not_lt.mpr hlength), hplace']
    split
    · rfl
    · rfl
  · rw [if_neg hacceptable]
    by_cases htype : bytes.getD 0 0 = 6
    · rw [if_neg (not_not.mpr htype)]
      by_cases hfile : wordAt bytes 1 = 0
      · rw [if_pos hfile]
        rfl
      · rw [if_neg hfile]
        by_cases hrecord : wordAt bytes 3 > 0x270F
        · rw [if_pos hrecord]
          rfl
        · rw [if_neg hrecord]
          by_cases hlength : wordAt bytes 5 > 122
          · rw [if_pos hlength]
            rfl
          · exact absurd ⟨htype, hfile, UInt16.not_lt.mp hrecord,
              UInt16.not_lt.mp hlength⟩ hacceptable
    · rw [if_pos htype]
      rfl

theorem run_checkRecords_outside
    (hmessage : message.length = msgBufSize)
    (hplace : msgBufSize < place + 7) (fuel size : Nat) :
    checkRecords fuel size
        (serverAt old message place unit fc broadcast ignored bt rt d) =
      .fault := by
  cases fuel with
  | zero =>
      rfl
  | succ fuel =>
      exact run_recordFields_outside hmessage hplace _

/-- What the checking loop comes to for each outcome of a scan. -/
def Finds (server : Nat → Server δ)
    (found : Dialogue LineCall LineAnswer
      (Except NmbsError Nat × Server δ)) : Scan → Prop
  | .undefined => found = .fault
  | .refused e =>
      ∃ place r, found = .ret (r, server place) ∧
        (r = .error e ∨
          e = .exceptionIllegalDataValue ∧ ∃ n, n ≠ 0 ∧ r = .ok n)
  | .entries _ => ∃ place, found = .ret (.ok 0, server place)

theorem Finds.cons
    {server : Nat → Server δ}
    {found : Dialogue LineCall LineAnswer
      (Except NmbsError Nat × Server δ)}
    {scan : Scan} (h : Finds server found scan) (e : FileEntry) :
    Finds server found (scan.cons e) := by
  cases scan with
  | undefined =>
      exact h
  | refused exception =>
      exact h
  | entries es =>
      exact h

/-- Behind a record that runs past the request the loop finds no end. -/
theorem finds_scanStale
    (hmessage : message.length = msgBufSize) {fuel size : Nat}
    (hlarge : 251 * fuel + 7 ≤ size) (hsize : size < 65536) :
    Finds
      (fun p =>
        serverAt old message p unit fc broadcast ignored bt rt d)
      (checkRecords fuel size
        (serverAt old message place unit fc broadcast ignored bt rt d))
      (scanStale fuel (message.drop place)) := by
  induction fuel generalizing size place with
  | zero =>
      rfl
  | succ fuel ih =>
      rw [scanStale, List.length_drop, hmessage]
      by_cases hend : msgBufSize - place < 7
      · rw [if_pos hend]
        exact run_checkRecords_outside hmessage (by omega) _ _
      · rw [if_neg hend, run_checkRecords_succ hmessage (by omega)]
        by_cases hacceptable : Acceptable (message.drop place)
        · have hlen := hacceptable.length_le
          rw [if_pos hacceptable, if_pos hacceptable,
            restSize_of_le hsize (by omega), if_pos (by omega),
            List.drop_drop]
          exact ih (by omega) (by omega)
        · rw [if_neg hacceptable, if_neg hacceptable]
          exact ⟨_, _, rfl, Or.inl rfl⟩

/-- The checking loop finds what the scan finds. -/
theorem finds_scanEntries
    (hmessage : message.length = msgBufSize) {fuel stop : Nat}
    (hstop : stop ≤ msgBufSize) (hrecord : place + 7 ≤ stop)
    (hfew : fuel ≤ 260) (hfuel : stop - place < 7 * fuel) :
    Finds
      (fun p =>
        serverAt old message p unit fc broadcast ignored bt rt d)
      (checkRecords fuel (stop - place)
        (serverAt old message place unit fc broadcast ignored bt rt d))
      (scanEntries fuel ((message.drop place).take (stop - place))
        (message.drop stop)) := by
  induction fuel generalizing place with
  | zero =>
      omega
  | succ fuel ih =>
      have hlen :
          ((message.drop place).take (stop - place)).length =
            stop - place := by
        rw [List.length_take, List.length_drop]
        omega
      have hfields :
          Acceptable ((message.drop place).take (stop - place)) ↔
            Acceptable (message.drop place) :=
        acceptable_take (by omega)
      have hclaim :
          entryLength ((message.drop place).take (stop - place)) =
            entryLength (message.drop place) :=
        entryLength_take (by omega)
      have hroom : ¬ stop - place < 7 := by
        omega
      rw [run_checkRecords_succ hmessage (by omega), scanEntries, hlen,
        if_neg hroom]
      by_cases hacceptable : Acceptable (message.drop place)
      · have hlength := hacceptable.length_le
        rw [if_pos hacceptable, if_pos (hfields.mpr hacceptable), hclaim]
        have hentry : entryLength (message.drop place) =
            7 + 2 * (wordAt (message.drop place) 5).toNat := rfl
        by_cases hover :
            stop - place < entryLength (message.drop place)
        · have hrest :
              (((message.drop place).take (stop - place)) ++
                message.drop stop) = message.drop place := by
            have hdrop : message.drop stop =
                (message.drop place).drop (stop - place) := by
              rw [List.drop_drop]
              congr 1
              omega
            rw [hdrop, List.take_append_drop]
          rw [if_pos hover, restSize_of_lt hlength (by omega),
            if_pos (by omega), hrest, List.drop_drop]
          exact finds_scanStale hmessage (by omega) (by omega)
        · rw [if_neg hover, restSize_of_le (by omega) (by omega)]
          by_cases hlast :
              stop - place = entryLength (message.drop place)
          · rw [if_pos hlast, if_neg (by omega), hlast, hentry,
              Nat.sub_self]
            exact ⟨_, rfl⟩
          · rw [if_neg hlast]
            refine Finds.cons ?_ _
            have htail :
                ((message.drop place).take (stop - place)).drop
                    (entryLength (message.drop place)) =
                  (message.drop
                    (place + entryLength (message.drop place))).take
                    (stop -
                      (place + entryLength (message.drop place))) := by
              rw [List.drop_take, List.drop_drop, Nat.sub_sub]
            rw [htail]
            by_cases hmore :
                stop - place -
                  (7 + 2 * (wordAt (message.drop place) 5).toNat) ≥ 7
            · rw [if_pos hmore]
              have hnext :=
                @ih (place + entryLength (message.drop place))
                  (by omega) (by omega) (by omega)
              have hrest :
                  stop - (place + entryLength (message.drop place)) =
                    stop - place -
                      (7 + 2 * (wordAt (message.drop place) 5).toNat) := by
                omega
              rwa [hrest] at hnext ⊢
            · obtain ⟨more, rfl⟩ :=
                Nat.exists_eq_succ_of_ne_zero (by omega : fuel ≠ 0)
              have hshort :
                  ((message.drop
                    (place + entryLength (message.drop place))).take
                    (stop -
                      (place + entryLength (message.drop place)))).length <
                    7 := by
                rw [List.length_take]
                omega
              rw [if_neg hmore, scanEntries, if_pos hshort]
              exact ⟨_, _, rfl, Or.inr ⟨rfl, _, by omega, rfl⟩⟩
      · rw [if_neg hacceptable,
          if_neg (fun h => hacceptable (hfields.mp h))]
        exact ⟨_, _, rfl, Or.inl rfl⟩

end Checking

section Processing

variable {δ : Type}
variable {conf : NmbsConf δ}
variable {old : ByteMem} {message : List UInt8} {place : Nat}
variable {unit fc : UInt8} {broadcast ignored : Bool}
variable {bt rt : Int32} {d : δ}

/-- The registers of a message, word by word. -/
theorem wireHalfwords_take
    {a n : Nat} (hfit : a + 2 * n ≤ message.length) :
    wireHalfwords ((message.drop a).take (2 * n)) =
      (List.range n).map fun i => wordAt message (a + 2 * i) := by
  induction n generalizing a with
  | zero =>
      rfl
  | succ n ih =>
      rw [List.drop_eq_getElem_cons (by omega : a < message.length),
        List.drop_eq_getElem_cons (by omega : a + 1 < message.length),
        show 2 * (n + 1) = 2 * n + 1 + 1 by omega, List.take_succ_cons,
        List.take_succ_cons, wireHalfwords, ih (by omega),
        List.range_succ_eq_map, List.map_cons, List.map_map]
      refine congrArg₂ _ ?_ (List.map_congr_left fun i _ => ?_)
      · rw [wordAt, List.getD_eq_getElem _ _ (by omega),
          List.getD_eq_getElem _ _ (by omega)]
        rfl
      · exact congrArg (wordAt message) (by simp; omega)

/-- The registers a callback gets are those of the entry. -/
theorem registers_of_swapPairs
    {a n : Nat} (hfit : a + 2 * n ≤ message.length) :
    ((List.range n).map fun i =>
        hostHalfword (swapPairs (storeBytes old 0 message) a n)
          (a + 2 * i)) =
      wireHalfwords ((message.drop a).take (2 * n)) := by
  rw [wireHalfwords_take hfit]
  refine List.map_congr_left fun i hi => ?_
  have hin : i < n := List.mem_range.mp hi
  rw [hostHalfword_swapPairs hin,
    storeBytes_inside (Nat.zero_le _) (by omega),
    storeBytes_inside (Nat.zero_le _) (by omega), Nat.sub_zero,
    Nat.sub_zero]
  rfl

/-- The server with a given buffer and index. -/
abbrev bufferServer (buf : ByteMem) (place : Nat)
    (unit fc : UInt8) (broadcast ignored : Bool) (bt rt : Int32) (d : δ) :
    Server δ where
  msg :=
    { buf := buf
      bufIdx := place
      unitId := unit
      fc := fc
      transactionId := 0
      broadcast := broadcast
      ignored := ignored
      complete := false }
  byteTimeoutMs := bt
  readTimeoutMs := rt
  device := d

/-- Taking an entry out of the buffer swaps its registers in place. -/
theorem run_takeEntry {β : Type}
    (hmessage : message.length = msgBufSize)
    (hfit : place + entryLength (message.drop place) ≤ msgBufSize)
    (f : UInt16 → UInt16 → UInt16 → Nat → ServerM δ β) :
    (discardN 1 >>= fun _ => get2 >>= fun x => get2 >>= fun y =>
        get2 >>= fun z => getRegs z.toNat >>= fun p => f x y z p)
        (serverAt old message place unit fc broadcast ignored bt rt d) =
      if (entryOf (message.drop place)).registers ≠ [] ∧
          (place + 7) % 2 = 1 then
        .fault
      else
        f (wordAt (message.drop place) 1) (wordAt (message.drop place) 3)
          (wordAt (message.drop place) 5) (place + 7)
          (bufferServer
            (swapPairs (storeBytes old 0 message) (place + 7)
              (wordAt (message.drop place) 5).toNat)
            (place + entryLength (message.drop place))
            unit fc broadcast ignored bt rt d) := by
  have hsize : msgBufSize = 260 := rfl
  have hentry : entryLength (message.drop place) =
      7 + 2 * (wordAt (message.drop place) 5).toNat := rfl
  have hword : ∀ i,
      wordAt message (place + i) = wordAt (message.drop place) i := by
    intro i
    simp only [wordAt, List.getD_eq_getElem?_getD, List.getElem?_drop]
    rfl
  have hnil : (entryOf (message.drop place)).registers = [] ↔
      (wordAt (message.drop place) 5).toNat = 0 := by
    rw [← List.length_eq_zero_iff, entryOf, length_wireHalfwords,
      List.length_take, List.length_drop, List.length_drop]
    omega
  have hplace' :
      (place + 7 + (wordAt (message.drop place) 5).toNat * 2) % 65536 =
        place + entryLength (message.drop place) := by
    omega
  rw [run_discardN (by omega), run_get2 (by omega) (by omega),
    run_get2 (by omega) (by omega), run_get2 (by omega) (by omega),
    hword 1, hword 3, hword 5, getRegs]
  simp only [getN, run_bind_assoc, run_inspect, discardN, run_modifyMsg,
    run_pure_bind]
  rw [hplace']
  by_cases hodd :
      (wordAt (message.drop place) 5).toNat ≠ 0 ∧ (place + 7) % 2 = 1
  · rw [if_pos ⟨fun h => hodd.1 (hnil.mp h), hodd.2⟩]
    exact run_swapRegs_odd hodd.2 (Nat.pos_of_ne_zero hodd.1) _ _
  · rw [if_neg fun h => hodd ⟨fun h0 => h.1 (hnil.mpr h0), h.2⟩]
    by_cases heven : (place + 7) % 2 = 0
    · rw [run_swapRegs heven (by omega)]
      rfl
    · have hzero : (wordAt (message.drop place) 5).toNat = 0 := by
        by_contra hne
        exact hodd ⟨hne, by omega⟩
      rw [hzero, swapPairs_zero]
      rfl

/-- The server behind the processing loop: none if it has gone wrong. -/
def Processed (server : ByteMem → Nat → δ → Server δ) (buf : ByteMem)
    (processed : Dialogue LineCall LineAnswer (NmbsError × Server δ)) :
    Option (NmbsError × δ) → Prop
  | none => processed = .fault
  | some (e, d) =>
      ∃ buf' place, processed = .ret (e, server buf' place d) ∧
        (e = .errorNone → buf' = buf)

theorem callbackException_ne_errorNone (err : NmbsError) :
    callbackException err ≠ .errorNone := by
  cases err <;> simp [callbackException, NmbsError.isException,
    NmbsError.code]

/-- Swapping the registers of an entry back. -/
theorem run_swapRegs_back {β : Type}
    {buf : ByteMem} {a n p : Nat}
    (hfit : a + 2 * n ≤ msgBufSize) (haligned : n = 0 ∨ a % 2 = 0)
    (f : PUnit → ServerM δ β) :
    (swapRegs a n >>= f)
        (bufferServer (swapPairs buf a n) p unit fc broadcast ignored
          bt rt d) =
      f ⟨⟩ (bufferServer buf p unit fc broadcast ignored bt rt d) := by
  by_cases heven : a % 2 = 0
  · rw [run_swapRegs heven hfit]
    simp only [swapPairs_swapPairs]
  · obtain rfl := haligned.resolve_right heven
    rw [swapPairs_zero]
    rfl

theorem length_bytes_entryOf
    {bytes : List UInt8} (hfit : entryLength bytes ≤ bytes.length) :
    (entryOf bytes).bytes.length = entryLength bytes ∧
      (entryOf bytes).registers.length = (wordAt bytes 5).toNat := by
  have hentry : entryLength bytes = 7 + 2 * (wordAt bytes 5).toNat := rfl
  have hregisters :
      (entryOf bytes).registers.length = (wordAt bytes 5).toNat := by
    rw [entryOf, length_wireHalfwords, List.length_take, List.length_drop]
    omega
  refine ⟨?_, hregisters⟩
  simp only [FileEntry.bytes, List.length_cons, List.length_append,
    length_wireString, hregisters, wireBytes, List.length_nil]
  omega

/-- The processing loop serves the entries that the scan has found. -/
theorem processed_entries
    (hmessage : message.length = msgBufSize)
    {fuel stop : Nat} (hstop : stop ≤ msgBufSize)
    {stale : List UInt8} {es : List FileEntry}
    (hscan : scanEntries fuel ((message.drop place).take (stop - place))
      stale = .entries es) :
    Processed
      (fun buf p d => bufferServer buf p unit fc broadcast ignored bt rt d)
      (storeBytes old 0 message)
      (processRecords conf fuel (stop - place)
        (serverAt old message place unit fc broadcast ignored bt rt d))
      (serveEntries conf.callbacks unit place es d) := by
  induction fuel generalizing place es d with
  | zero =>
      cases hscan
  | succ fuel ih =>
      have hsize : msgBufSize = 260 := rfl
      obtain ⟨hseven, hacceptable, hinside, hrest⟩ :=
        scanEntries_eq_entries hscan
      have hlen :
          ((message.drop place).take (stop - place)).length =
            stop - place := by
        rw [List.length_take, List.length_drop] at hseven ⊢
        omega
      rw [hlen] at hseven hinside hrest
      rw [acceptable_take hseven] at hacceptable
      rw [entryLength_take hseven] at hinside hrest
      rw [entryOf_take hinside] at hrest
      have hfit : place + entryLength (message.drop place) ≤ msgBufSize := by
        omega
      have hentry : entryLength (message.drop place) =
          7 + 2 * (wordAt (message.drop place) 5).toNat := rfl
      obtain ⟨hbytes, hregisters⟩ :=
        @length_bytes_entryOf (message.drop place)
          (by rw [List.length_drop]; omega)
      obtain ⟨more, rfl⟩ : ∃ more, es = entryOf (message.drop place) :: more :=
        hrest.elim (fun h => ⟨[], h.2⟩) (fun ⟨more, h, _⟩ => ⟨more, h⟩)
      have hlist :
          ((List.range (wordAt (message.drop place) 5).toNat).map fun i =>
            hostHalfword
              (swapPairs (storeBytes old 0 message) (place + 7)
                (wordAt (message.drop place) 5).toNat)
              (place + 7 + 2 * i)) =
            (entryOf (message.drop place)).registers := by
        rw [registers_of_swapPairs (by omega), entryOf, List.drop_drop]
      rw [processRecords, run_takeEntry hmessage hfit, serveEntries]
      by_cases hodd : (entryOf (message.drop place)).registers ≠ [] ∧
          (place + 7) % 2 = 1
      · rw [if_pos hodd, if_pos hodd]
        rfl
      · rw [if_neg hodd, if_neg hodd]
        cases hcb : conf.callbacks.writeFileRecord with
        | none =>
            exact ⟨_, _, rfl, fun h => by cases h⟩
        | some cb =>
            have hfile : (entryOf (message.drop place)).fileNumber =
                wordAt (message.drop place) 1 := rfl
            have hrecord : (entryOf (message.drop place)).recordNumber =
                wordAt (message.drop place) 3 := rfl
            simp only [run_inspect, run_callback, hlist, hregisters,
              UInt16.ofNat_toNat, hbytes, hfile, hrecord]
            generalize cb d (wordAt (message.drop place) 1)
              (wordAt (message.drop place) 3)
              (entryOf (message.drop place)).registers
              (wordAt (message.drop place) 5) unit = r
            by_cases herr : r.1 = .errorNone
            · simp only [ne_eq, herr, not_true_eq_false, if_false]
              rw [run_swapRegs_back (by omega) (by
                by_contra hnot
                refine hodd ⟨fun h => ?_, by omega⟩
                rw [h, List.length_nil] at hregisters
                omega), restSize_of_le (by omega) (by omega)]
              obtain ⟨hlast, hmore⟩ | ⟨es', hmore, htail⟩ := hrest
              · obtain rfl := (List.cons.inj hmore).2
                rw [if_neg (by omega)]
                exact ⟨_, _, rfl, fun _ => rfl⟩
              · obtain rfl := (List.cons.inj hmore).2
                rw [List.drop_take, List.drop_drop, Nat.sub_sub] at htail
                have hlong : 7 ≤ stop - place -
                    (7 + 2 * (wordAt (message.drop place) 5).toNat) := by
                  cases fuel with
                  | zero =>
                      cases htail
                  | succ fuel =>
                      have hnext := (scanEntries_eq_entries htail).1
                      rw [List.length_take] at hnext
                      omega
                have hnext := @ih _ r.2 _ htail
                rw [if_pos hlong]
                rwa [← Nat.sub_sub, hentry] at hnext
            · simp only [ne_eq, herr, not_false_eq_true, if_true]
              have hexception :
                  (if r.1.isException = true then
                      (pure r.1 : ServerM δ NmbsError)
                    else pure .exceptionServerDeviceFailure) =
                    pure (callbackException r.1) := by
                rw [callbackException]
                split <;> rfl
              rw [hexception]
              exact ⟨_, _, rfl, fun h =>
                absurd h (callbackException_ne_errorNone r.1)⟩

end Processing

section FileAnswer

variable {δ : Type}
variable {conf : NmbsConf δ}
variable {old : ByteMem} {place : Nat}
variable {unit : UInt8} {broadcast ignored : Bool}
variable {bt rt : Int32} {d : δ}

/-- What lies behind a request in the buffer. -/
def staleBehind (conf : NmbsConf δ) (old : ByteMem) (body : List UInt8) :
    List UInt8 :=
  window (storeBytes old 0 (withCheck conf.crcCalc body)) body.length
    (msgBufSize - body.length)

theorem agrees_answerWriteFileRecord
    (hrtu : conf.transport = .nmbsTransportRtu)
    {data : List UInt8} (hsmall : data.length ≤ 251)
    (hunit : broadcast = decide (unit = nmbsBroadcastAddress)) :
    Agrees (Same bt rt)
      (answerWriteFileRecord conf data.length 3
        (serverAt old
          (withCheck conf.crcCalc (Request.body unit (.writeRecords data)))
          place unit 21 broadcast ignored bt rt d))
      (match serve conf.callbacks unit
          (staleBehind conf old (Request.body unit (.writeRecords data)))
          (.writeRecords data) d with
        | none => .fault
        | some (reply, d') => deliver conf.crcCalc bt unit 21 reply d') := by
  have hsize : msgBufSize = 260 := rfl
  have hbytes : Request.body unit (.writeRecords data) =
      [unit, 21, UInt8.ofNat data.length] ++ data := rfl
  generalize hbody : Request.body unit (.writeRecords data) = body at *
  have hlen : body.length = 3 + data.length := by
    rw [hbytes, List.length_append]
    rfl
  generalize hstale : staleBehind conf old body = stale
  generalize hbuf :
    storeBytes old 0 (withCheck conf.crcCalc body) = buf
  have hfront : window buf 0 body.length = body := by
    rw [← hbuf, withCheck]
    exact window_storeBytes_prefix old body _
  have hmessage : window buf 0 msgBufSize = body ++ stale := by
    rw [show msgBufSize = body.length + (msgBufSize - body.length) by omega,
      window_add, hfront, Nat.zero_add, ← hstale, staleBehind, hbuf]
  have hfull : (body ++ stale).length = msgBufSize := by
    rw [← hmessage, length_window]
  have hthree : (body ++ stale).drop 3 = data ++ stale := by
    rw [hbytes, List.append_assoc]
    rfl
  have htake :
      ((body ++ stale).drop 3).take (3 + data.length - 3) = data := by
    rw [hthree, Nat.add_sub_cancel_left, List.take_left]
  have hdrop : (body ++ stale).drop (3 + data.length) = stale := by
    rw [← hlen, List.drop_left]
  have hstart : ∀ (p : Nat) (d : δ),
      serverAt buf (body ++ stale) p unit 21 broadcast ignored bt rt d =
        bufferServer buf p unit 21 broadcast ignored bt rt d := by
    intro p d
    simp only [serverAt, bufferServer, ← hmessage, storeBytes_window]
  have hexception : ∀ (m : ByteMem) (p : Nat) (code : NmbsError) (d : δ),
      Agrees (Same bt rt)
        (sendExceptionMsg conf code.byte
          (bufferServer m p unit 21 broadcast ignored bt rt d))
        (deliver conf.crcCalc bt unit 21 (.exception code) d) := by
    intro m p code d
    have hsend :=
      @agrees_sendExceptionMsg δ conf m [] p unit 21 broadcast ignored
        bt rt d hrtu code hunit
    rwa [serverAt, storeBytes_nil] at hsend
  rw [answerWriteFileRecord, run_modifyMsg, serve, serveRecords]
  by_cases hshort : data.length < 7
  · rw [if_pos hshort, show msgBufSize = 259 + 1 by rfl, scanEntries,
      if_pos hshort]
    simp only [hbuf]
    exact hexception _ _ _ _
  · rw [if_neg hshort]
    simp only [hbuf]
    have hfinds :=
      @finds_scanEntries δ buf (body ++ stale) 3 unit 21 broadcast ignored
        bt rt d hfull msgBufSize (3 + data.length) (by omega) (by omega)
        (by omega) (by omega)
    rw [htake, hdrop, Nat.add_sub_cancel_left, hstart] at hfinds
    rw [run_bind]
    generalize hscan : scanEntries msgBufSize data stale = scan at hfinds
    cases scan with
    | undefined =>
        rw [Finds] at hfinds
        rw [hfinds]
        exact .fault
    | refused e =>
        obtain ⟨p, r, hfound, hr | ⟨rfl, n, hn, hr⟩⟩ := hfinds
        · rw [hfound, hr]
          simp only [Dialogue.bind, hstart]
          exact hexception _ _ _ _
        · rw [hfound, hr]
          simp only [Dialogue.bind, hstart, ne_eq, hn, not_false_eq_true,
            if_true]
          exact hexception _ _ _ _
    | entries es =>
        obtain ⟨p, hfound⟩ := hfinds
        rw [hfound]
        simp only [Dialogue.bind, hstart, ne_eq, not_true_eq_false, if_false,
          run_modifyMsg]
        have hprocessed :=
          @processed_entries δ conf buf (body ++ stale) 3 unit 21 broadcast
            ignored bt rt d hfull msgBufSize (3 + data.length) (by omega)
            stale es (by rw [htake]; exact hscan)
        rw [Nat.add_sub_cancel_left, hstart] at hprocessed
        generalize serveEntries conf.callbacks unit 3 es d = served
          at hprocessed
        cases served with
        | none =>
            rw [Processed] at hprocessed
            rw [run_bind, hprocessed]
            exact .fault
        | some r =>
            obtain ⟨buf', p', hloop, hkept⟩ := hprocessed
            rw [run_bind, hloop]
            by_cases herr : r.1 = .errorNone
            · simp only [Dialogue.bind, herr, not_true_eq_false, if_false,
                Option.map_some, run_inspect, hkept herr]
              rw [deliver]
              by_cases hbroadcast : unit = nmbsBroadcastAddress
              · rw [if_pos hbroadcast,
                  if_pos (by rw [hunit, hbroadcast]; rfl)]
                exact .ret ⟨rfl, rfl, rfl, rfl⟩
              · have hecho : (Reply.response
                    (UInt8.ofNat data.length :: data)).body unit 21 =
                    body := hbytes.symm
                have hreply :=
                  @agrees_sendMsg δ conf buf body unit 21 broadcast ignored
                    bt rt r.2 hrtu (by omega)
                have hplace :
                    serverAt buf body body.length unit 21 broadcast ignored
                        bt rt r.2 =
                      bufferServer buf body.length unit 21 broadcast
                        ignored bt rt r.2 := by
                  have hsame : storeBytes buf 0 body = buf := by
                    conv_lhs =>
                      rw [← hfront, storeBytes_window]
                  simp only [serverAt, bufferServer, hsame]
                rw [if_neg hbroadcast,
                  if_neg (by rw [hunit]; simp [hbroadcast]), run_modifyMsg,
                  hecho]
                rw [hplace, hlen] at hreply
                have hback :
                    (3 + data.length) % 65536 = 3 + data.length := by
                  omega
                have hwhole : storeBytes buf 0 (body ++ stale) = buf := by
                  rw [← hmessage, storeBytes_window]
                rw [discardN, run_modifyMsg]
                simp only [hback, hwhole]
                exact hreply
            · simp only [Dialogue.bind, herr, not_false_eq_true, if_true,
                Option.map_some]
              exact hexception _ _ _ _

end FileAnswer

end Port
end ModbusRtu
