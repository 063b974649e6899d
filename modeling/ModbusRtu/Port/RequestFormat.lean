import ModbusRtu.Kernel.Segments
import ModbusRtu.Port.RecordAgreement

/-!
# The format of requests

A request is well formed if its byte counts are those of its data and its data
fits the buffer. The frames of well-formed requests delimit themselves, so a
stream of frames determines the units and requests in it, whatever function
computes the check.

The data of a file request is a list of entries. The scan of the data finds
exactly the encodings of lists of well-formed entries, at least one of them, and
finds the entries that were encoded. Whether their service is defined then
depends on their places: the registers of the second entry, and of every other
one from there on, lie at an odd place of the buffer.
-/

namespace ModbusRtu
namespace Port

open Kernel

section Halfwords

@[simp] theorem length_wireBytes (x : UInt16) : (wireBytes x).length = 2 := by
  rfl

theorem wordAt_wireBytes (pre : List UInt8) (x : UInt16)
    (rest : List UInt8) :
    wordAt (pre ++ wireBytes x ++ rest) pre.length = x := by
  rw [List.append_assoc, wordAt, List.getD_append_right pre _ _ _ (by omega),
    List.getD_append_right pre _ _ _ (by omega), Nat.sub_self,
    Nat.add_sub_cancel_left]
  exact halfword_hiByte_loByte x

/-- Registers are read back from their wire bytes. -/
theorem wireHalfwords_wireString (xs : List UInt16) :
    wireHalfwords (wireString xs) = xs := by
  induction xs with
  | nil =>
      rfl
  | cons x xs ih =>
      rw [wireString_cons, wireHalfwords, ih, halfword_hiByte_loByte]

theorem wireBytes_injective {x y : UInt16}
    (h : wireBytes x = wireBytes y) : x = y := by
  have hx := wordAt_wireBytes [] x []
  rw [h, wordAt_wireBytes] at hx
  exact hx.symm

end Halfwords

section Requests

/-- The byte counts of a request are those of its data. -/
def Request.WellFormed : Request → Prop
  | .readRegisters _ _ => True
  | .writeRegister _ _ => True
  | .writeRegisters _ _ byteCount data =>
      data.length = byteCount.toNat ∧ data.length % 2 = 0 ∧
        data.length ≤ 246
  | .writeRecords data => data.length ≤ 251

/-- The fields of two requests with one function code delimit themselves. -/
theorem Request.fields_inj
    {r r' : Request} (hr : r.WellFormed) (hr' : r'.WellFormed)
    (hfc : r.fc = r'.fc) {x y : List UInt8}
    (h : r.fields ++ x = r'.fields ++ y) :
    r = r' := by
  cases r with
  | readRegisters address quantity =>
      cases r' with
      | readRegisters address' quantity' =>
          simp only [fields, List.append_assoc] at h
          have hsplit := List.append_inj h rfl
          have hrest := List.append_inj hsplit.2 rfl
          rw [wireBytes_injective hsplit.1, wireBytes_injective hrest.1]
      | writeRegister | writeRegisters | writeRecords =>
          simp [fc] at hfc
  | writeRegister address value =>
      cases r' with
      | writeRegister address' value' =>
          simp only [fields, List.append_assoc] at h
          have hsplit := List.append_inj h rfl
          have hrest := List.append_inj hsplit.2 rfl
          rw [wireBytes_injective hsplit.1, wireBytes_injective hrest.1]
      | readRegisters | writeRegisters | writeRecords =>
          simp [fc] at hfc
  | writeRegisters address quantity byteCount data =>
      cases r' with
      | writeRegisters address' quantity' byteCount' data' =>
          simp only [fields, List.append_assoc, List.cons_append] at h
          have hsplit := List.append_inj h rfl
          have hrest := List.append_inj hsplit.2 rfl
          obtain ⟨rfl, hdata⟩ := List.cons.inj hrest.2
          have hlen : data.length = data'.length := by
            rw [hr.1, hr'.1]
          rw [wireBytes_injective hsplit.1, wireBytes_injective hrest.1,
            (List.append_inj hdata hlen).1]
      | readRegisters | writeRegister | writeRecords =>
          simp [fc] at hfc
  | writeRecords data =>
      cases r' with
      | writeRecords data' =>
          simp only [fields, List.cons_append] at h
          obtain ⟨hcount, hdata⟩ := List.cons.inj h
          have hlen : data.length = data'.length := by
            have hsmall : data.length ≤ 251 := hr
            have hsmall' : data'.length ≤ 251 := hr'
            have hnat := congrArg UInt8.toNat hcount
            rw [UInt8.toNat_ofNat', UInt8.toNat_ofNat'] at hnat
            omega
          rw [(List.append_inj hdata hlen).1]
      | readRegisters | writeRegister | writeRegisters =>
          simp [fc] at hfc

/-- The frame of a request to a unit. -/
def requestFrame (crcCalc : List UInt8 → UInt16)
    (p : UInt8 × Request) : List UInt8 :=
  withCheck crcCalc (p.2.body p.1)

/-- The frames of well-formed requests delimit themselves. -/
theorem requestFrame_selfDelimiting (crcCalc : List UInt8 → UInt16) :
    SelfDelimiting (requestFrame crcCalc) fun p => p.2.WellFormed := by
  rintro ⟨unit, r⟩ ⟨unit', r'⟩ x y hr hr' h
  simp only [requestFrame, withCheck, Request.body, List.cons_append,
    List.append_assoc] at h
  obtain ⟨rfl, h⟩ := List.cons.inj h
  obtain ⟨hfc, h⟩ := List.cons.inj h
  obtain rfl := Request.fields_inj hr hr' hfc h
  rfl

/-- A stream of frames determines its units and requests. -/
theorem requests_of_stream
    (crcCalc : List UInt8 → UInt16) {ps qs : List (UInt8 × Request)}
    (hps : ∀ p ∈ ps, p.2.WellFormed) (hqs : ∀ q ∈ qs, q.2.WellFormed)
    (h : ps.flatMap (requestFrame crcCalc) =
      qs.flatMap (requestFrame crcCalc)) :
    ps = qs := by
  refine (requestFrame_selfDelimiting crcCalc).flatMap_injective
    (fun p _ hempty => ?_) hps hqs h
  exact List.cons_ne_nil _ _ hempty

/-- A stream of two frames, the second one broadcast. -/
theorem requests_of_stream_two :
    ([(1, .readRegisters 0 2), (0, .writeRecords [6, 0])] :
        List (UInt8 × Request)) =
      [(1, .readRegisters 0 2), (0, .writeRecords [6, 0])] := by
  refine requests_of_stream nmbsCrcCalc ?_ ?_ rfl
  · simp [Request.WellFormed]
  · simp [Request.WellFormed]

end Requests

section Entries

/-- The fields of an entry are in the ranges that the server accepts. -/
structure FileEntry.WellFormed (e : FileEntry) : Prop where
  fileNumber : e.fileNumber ≠ 0
  recordNumber : e.recordNumber ≤ 0x270F
  registers : e.registers.length ≤ 122

@[simp] theorem FileEntry.length_bytes (e : FileEntry) :
    e.bytes.length = 7 + 2 * e.registers.length := by
  simp [FileEntry.bytes]
  omega

variable {e : FileEntry} {es : List FileEntry}

/-- The header of an encoded entry says what was encoded. -/
theorem FileEntry.wordAt_bytes (e : FileEntry) (rest : List UInt8) :
    wordAt (e.bytes ++ rest) 1 = e.fileNumber ∧
      wordAt (e.bytes ++ rest) 3 = e.recordNumber ∧
      wordAt (e.bytes ++ rest) 5 = UInt16.ofNat e.registers.length := by
  have hbytes : e.bytes ++ rest =
      [6] ++ wireBytes e.fileNumber ++ (wireBytes e.recordNumber ++
        wireBytes (UInt16.ofNat e.registers.length) ++
          wireString e.registers ++ rest) := by
    simp [FileEntry.bytes]
  have hbytes' : e.bytes ++ rest =
      ([6] ++ wireBytes e.fileNumber) ++ wireBytes e.recordNumber ++
        (wireBytes (UInt16.ofNat e.registers.length) ++
          wireString e.registers ++ rest) := by
    simp [FileEntry.bytes]
  have hbytes'' : e.bytes ++ rest =
      ([6] ++ wireBytes e.fileNumber ++ wireBytes e.recordNumber) ++
        wireBytes (UInt16.ofNat e.registers.length) ++
          (wireString e.registers ++ rest) := by
    simp [FileEntry.bytes]
  refine ⟨?_, ?_, ?_⟩
  · rw [hbytes]
    exact wordAt_wireBytes [6] _ _
  · rw [hbytes']
    exact wordAt_wireBytes ([6] ++ wireBytes e.fileNumber) _ _
  · rw [hbytes'']
    exact wordAt_wireBytes
      ([6] ++ wireBytes e.fileNumber ++ wireBytes e.recordNumber) _ _

theorem FileEntry.WellFormed.toNat_count (h : e.WellFormed) :
    (UInt16.ofNat e.registers.length).toNat = e.registers.length := by
  have hfew := h.registers
  rw [UInt16.toNat_ofNat']
  omega

theorem FileEntry.WellFormed.acceptable
    (h : e.WellFormed) (rest : List UInt8) :
    Acceptable (e.bytes ++ rest) := by
  obtain ⟨hfile, hrecord, hcount⟩ := e.wordAt_bytes rest
  rw [Acceptable, hfile, hrecord, hcount]
  refine ⟨rfl, h.fileNumber, h.recordNumber, ?_⟩
  rw [UInt16.le_iff_toNat_le, h.toNat_count]
  exact h.registers

theorem FileEntry.WellFormed.entryLength
    (h : e.WellFormed) (rest : List UInt8) :
    entryLength (e.bytes ++ rest) = e.bytes.length := by
  rw [Port.entryLength, (e.wordAt_bytes rest).2.2, h.toNat_count,
    FileEntry.length_bytes]

/-- An encoded entry is read back. -/
theorem FileEntry.WellFormed.entryOf
    (h : e.WellFormed) (rest : List UInt8) :
    entryOf (e.bytes ++ rest) = e := by
  obtain ⟨hfile, hrecord, hcount⟩ := e.wordAt_bytes rest
  have hdrop : (e.bytes ++ rest).drop 7 =
      wireString e.registers ++ rest := by
    simp [FileEntry.bytes, wireBytes]
  have htake : (wireString e.registers ++ rest).take
      (2 * e.registers.length) = wireString e.registers := by
    rw [← length_wireString, List.take_left]
  rw [Port.entryOf, hfile, hrecord, hcount, h.toNat_count, hdrop, htake,
    wireHalfwords_wireString]

theorem length_registers_entryOf
    {data : List UInt8} (hinside : Port.entryLength data ≤ data.length) :
    (Port.entryOf data).registers.length = (wordAt data 5).toNat := by
  have hlen : Port.entryLength data = 7 + 2 * (wordAt data 5).toNat := rfl
  rw [Port.entryOf, length_wireHalfwords, List.length_take,
    List.length_drop]
  omega

theorem wellFormed_entryOf
    {data : List UInt8} (hacceptable : Acceptable data)
    (hinside : Port.entryLength data ≤ data.length) :
    (Port.entryOf data).WellFormed := by
  rcases hacceptable with ⟨-, hfile, hrecord, hcount⟩
  refine ⟨hfile, hrecord, ?_⟩
  rw [length_registers_entryOf hinside]
  exact hcount

theorem take_seven {data : List UInt8} (h : 7 ≤ data.length) :
    data.take 7 =
      [data.getD 0 0, data.getD 1 0, data.getD 2 0, data.getD 3 0,
        data.getD 4 0, data.getD 5 0, data.getD 6 0] := by
  refine List.ext_getElem (by simp [h]) fun i hi _ => ?_
  rw [List.length_take] at hi
  rw [List.getElem_take]
  have hseven : i < 7 := by omega
  interval_cases i <;> exact (List.getD_eq_getElem _ _ _).symm

/-- An acceptable entry inside the data is the encoding of what is read. -/
theorem bytes_entryOf
    {data : List UInt8} (hacceptable : Acceptable data)
    (hinside : Port.entryLength data ≤ data.length) :
    (Port.entryOf data).bytes = data.take (Port.entryLength data) := by
  have hlen : Port.entryLength data = 7 + 2 * (wordAt data 5).toNat := rfl
  have hregisters : wireString (Port.entryOf data).registers =
      (data.drop 7).take (2 * (wordAt data 5).toNat) := by
    refine wireString_wireHalfwords _ ?_
    rw [List.length_take, List.length_drop]
    omega
  rw [FileEntry.bytes, hregisters, length_registers_entryOf hinside,
    UInt16.ofNat_toNat, hlen, List.take_add, ← List.cons_append]
  congr 1
  have hword : ∀ k, wireBytes (wordAt data k) =
      [data.getD k 0, data.getD (k + 1) 0] := by
    intro k
    rw [wordAt, wireBytes, hiByte_halfword, loByte_halfword]
  rw [Port.entryOf]
  simp only [hword]
  rw [← hacceptable.1]
  exact (take_seven (by omega)).symm

/-- The scan finds the entries that were encoded. -/
theorem scanEntries_of_wellFormed
    (fuel : Nat) (stale : List UInt8) (hsome : es ≠ [])
    (hes : ∀ e ∈ es, e.WellFormed) (hfuel : es.length ≤ fuel) :
    scanEntries fuel (es.flatMap FileEntry.bytes) stale =
      .entries es := by
  induction es generalizing fuel with
  | nil =>
      exact absurd rfl hsome
  | cons e es ih =>
      obtain ⟨fuel, rfl⟩ : ∃ n, fuel = n + 1 :=
        ⟨fuel - 1, by rw [List.length_cons] at hfuel; omega⟩
      have he := hes e (List.mem_cons_self ..)
      have hlen : e.bytes.length = 7 + 2 * e.registers.length :=
        e.length_bytes
      rw [List.flatMap_cons, scanEntries, if_neg
        (by rw [List.length_append]; omega), if_pos (he.acceptable _),
        he.entryLength, he.entryOf, List.drop_left,
        if_neg (by rw [List.length_append]; omega)]
      cases es with
      | nil =>
          rw [List.flatMap_nil, List.append_nil, if_pos rfl]
      | cons e' es =>
          have hmore : e'.bytes.length = 7 + 2 * e'.registers.length :=
            e'.length_bytes
          rw [if_neg (by
            rw [List.flatMap_cons, List.length_append, List.length_append]
            omega)]
          rw [ih fuel (List.cons_ne_nil _ _)
            (fun c hc => hes c (List.mem_cons_of_mem e hc))
            (by rw [List.length_cons] at hfuel; omega)]
          rfl

/-- What the scan finds was encoded. -/
theorem wellFormed_of_scanEntries
    {fuel : Nat} {data stale : List UInt8}
    (h : scanEntries fuel data stale = .entries es) :
    es ≠ [] ∧ (∀ e ∈ es, e.WellFormed) ∧
      data = es.flatMap FileEntry.bytes := by
  induction fuel generalizing data es with
  | zero =>
      cases h
  | succ fuel ih =>
      obtain ⟨-, hacceptable, hinside, hrest⟩ := scanEntries_eq_entries h
      have hhead := wellFormed_entryOf hacceptable hinside
      have hbytes := bytes_entryOf hacceptable hinside
      rcases hrest with ⟨hlen, rfl⟩ | ⟨es', rfl, htail⟩
      · refine ⟨List.cons_ne_nil _ _, ?_, ?_⟩
        · intro e he
          rw [List.mem_singleton.mp he]
          exact hhead
        · rw [List.flatMap_singleton, hbytes, ← hlen, List.take_length]
      · obtain ⟨-, hes', hdata⟩ := ih htail
        refine ⟨List.cons_ne_nil _ _, ?_, ?_⟩
        · rintro e (_ | ⟨_, he⟩)
          · exact hhead
          · exact hes' e he
        · rw [List.flatMap_cons, hbytes, ← hdata, List.take_append_drop]

/-- A request within the buffer has few entries. -/
theorem length_le_of_flatMap
    {data : List UInt8} (hdata : data = es.flatMap FileEntry.bytes) :
    es.length ≤ data.length := by
  subst hdata
  induction es with
  | nil =>
      exact Nat.zero_le _
  | cons e es ih =>
      rw [List.flatMap_cons, List.length_append, e.length_bytes,
        List.length_cons]
      omega

/--
Round trip: the scan finds entries in the data of a request exactly if the data
is their encoding, and they are well formed and at least one.
-/
theorem scan_finds_iff_encoded
    {data : List UInt8} (stale : List UInt8) (hsmall : data.length ≤ 251) :
    scanEntries msgBufSize data stale = .entries es ↔
      es ≠ [] ∧ (∀ e ∈ es, e.WellFormed) ∧
        data = es.flatMap FileEntry.bytes := by
  have hsize : msgBufSize = 260 := rfl
  refine ⟨wellFormed_of_scanEntries, ?_⟩
  rintro ⟨hsome, hes, hdata⟩
  have hfew := length_le_of_flatMap hdata
  rw [hdata]
  exact scanEntries_of_wellFormed msgBufSize stale hsome hes (by omega)

/-- An entry without registers between two with one each. -/
def threeEntries : List FileEntry :=
  [⟨1, 0, [0x4142]⟩, ⟨1, 1, []⟩, ⟨1, 2, [0x4344]⟩]

theorem threeEntries_wellFormed : ∀ e ∈ threeEntries, e.WellFormed := by
  intro e he
  rcases he with _ | ⟨_, _ | ⟨_, _ | ⟨_, he⟩⟩⟩
  · exact ⟨by decide, by decide, by decide⟩
  · exact ⟨by decide, by decide, by decide⟩
  · exact ⟨by decide, by decide, by decide⟩
  · cases he

theorem scan_finds_threeEntries :
    scanEntries msgBufSize (threeEntries.flatMap FileEntry.bytes) [] =
      .entries threeEntries := by
  refine (scan_finds_iff_encoded [] (by decide)).mpr ⟨?_, ?_, rfl⟩
  · exact List.cons_ne_nil _ _
  · exact threeEntries_wellFormed

/-- Entries, and behind them the header of one that claims too much. -/
def Overruns (data : List UInt8) : Prop :=
  ∃ (es : List FileEntry) (rest : List UInt8),
    data = es.flatMap FileEntry.bytes ++ rest ∧
      (∀ e ∈ es, e.WellFormed) ∧ 7 ≤ rest.length ∧ Acceptable rest ∧
      rest.length < Port.entryLength rest

/-- An entry in front changes nothing about that. -/
theorem overruns_of_drop
    {data : List UInt8} (hacceptable : Acceptable data)
    (hinside : Port.entryLength data ≤ data.length)
    (h : Overruns (data.drop (Port.entryLength data))) :
    Overruns data := by
  rcases h with ⟨es, rest, hdata, hes, hover⟩
  refine ⟨Port.entryOf data :: es, rest, ?_, ?_, hover⟩
  · rw [List.flatMap_cons, List.append_assoc, ← hdata,
      bytes_entryOf hacceptable hinside, List.take_append_drop]
  · rintro e (_ | ⟨_, he⟩)
    · exact wellFormed_entryOf hacceptable hinside
    · exact hes e he

/-- The data of well-formed entries claims no more than there is. -/
theorem not_overruns_of_wellFormed
    (hes : ∀ e ∈ es, e.WellFormed) :
    ¬ Overruns (es.flatMap FileEntry.bytes) := by
  rintro ⟨cs, rest, hdata, hcs, hseven, -, hover⟩
  induction cs generalizing es with
  | nil =>
      rw [List.flatMap_nil, List.nil_append] at hdata
      subst hdata
      cases es with
      | nil =>
          simp at hseven
      | cons e es =>
          have he := hes e (List.mem_cons_self ..)
          rw [List.flatMap_cons, he.entryLength, List.length_append] at hover
          omega
  | cons c cs ih =>
      have hc := hcs c (List.mem_cons_self ..)
      rw [List.flatMap_cons, List.append_assoc] at hdata
      cases es with
      | nil =>
          have hlen := congrArg List.length hdata
          simp at hlen
          omega
      | cons e es =>
          have he := hes e (List.mem_cons_self ..)
          rw [List.flatMap_cons] at hdata
          have hlen : e.bytes.length = c.bytes.length := by
            rw [← he.entryLength (es.flatMap FileEntry.bytes), hdata,
              hc.entryLength]
          exact ih (fun e' h => hes e' (List.mem_cons_of_mem e h))
            (List.append_inj hdata hlen).2
            (fun c' h => hcs c' (List.mem_cons_of_mem c h))

/-- The scan is defined unless an entry claims too much. -/
theorem overruns_of_undefined
    {fuel : Nat} {data stale : List UInt8} (hfuel : data.length < fuel)
    (h : scanEntries fuel data stale = .undefined) :
    Overruns data := by
  induction fuel generalizing data with
  | zero =>
      omega
  | succ fuel ih =>
      rw [scanEntries] at h
      split at h
      · cases h
      · split at h
        · rename_i hlong hacceptable
          split at h
          · rename_i hover
            exact ⟨[], data, rfl, List.forall_mem_nil _, by omega,
              hacceptable, hover⟩
          · split at h
            · cases h
            · rename_i hinside hmore
              have hlen : Port.entryLength data =
                  7 + 2 * (wordAt data 5).toNat := rfl
              have htail : scanEntries fuel
                  (data.drop (Port.entryLength data)) stale =
                    .undefined := by
                generalize scanEntries fuel
                  (data.drop (Port.entryLength data)) stale = scan at h
                cases scan with
                | undefined =>
                    rfl
                | refused exception =>
                    cases h
                | entries es =>
                    cases h
              exact overruns_of_drop hacceptable (by omega)
                (ih (by rw [List.length_drop]; omega) htail)
        · cases h

/-- Where no entry claims too much, what lies behind the data is not read. -/
theorem scanEntries_stale
    {fuel : Nat} {data : List UInt8} (stale stale' : List UInt8)
    (hinside : ¬ Overruns data) :
    scanEntries fuel data stale = scanEntries fuel data stale' := by
  induction fuel generalizing data with
  | zero =>
      rfl
  | succ fuel ih =>
      rw [scanEntries, scanEntries]
      split
      · rfl
      · split
        · rename_i hlong hacceptable
          have hlen : ¬ data.length < Port.entryLength data :=
            fun hover => hinside ⟨[], data, rfl, List.forall_mem_nil _,
              by omega, hacceptable, hover⟩
          rw [if_neg hlen, if_neg hlen]
          split
          · rfl
          · rw [ih fun h => hinside
              (overruns_of_drop hacceptable (by omega) h)]
        · rfl

end Entries

section Traps

variable {δ : Type}
variable {cbs : NmbsCallbacks δ} {unit : UInt8}
variable {es : List FileEntry} {d : δ}

/--
The service of entries is undefined if the callback accepts the entries before
one with registers at an odd place. The places of entries alternate.
-/
theorem serveEntries_eq_none_iff {place : Nat} :
    serveEntries cbs unit place es d = none ↔
      ∃ pre e post d', es = pre ++ e :: post ∧
        (place + pre.length) % 2 = 0 ∧ e.registers ≠ [] ∧
        serveEntries cbs unit place pre d = some (.errorNone, d') := by
  induction es generalizing place d with
  | nil =>
      constructor
      · intro h
        cases h
      · rintro ⟨pre, e, post, d', hes, -⟩
        exact absurd hes.symm (by simp)
  | cons e es ih =>
      by_cases hodd : e.registers ≠ [] ∧ (place + 7) % 2 = 1
      · rw [serveEntries, if_pos hodd]
        refine ⟨fun _ => ⟨[], e, es, d, rfl, ?_, hodd.1, rfl⟩, fun _ => rfl⟩
        rw [List.length_nil]
        omega
      · have hsplit : (∃ pre c post d', e :: es = pre ++ c :: post ∧
            (place + pre.length) % 2 = 0 ∧ c.registers ≠ [] ∧
            serveEntries cbs unit place pre d = some (.errorNone, d')) ↔
            ∃ pre c post d', es = pre ++ c :: post ∧
              (place + (pre.length + 1)) % 2 = 0 ∧ c.registers ≠ [] ∧
              serveEntries cbs unit place (e :: pre) d =
                some (.errorNone, d') := by
          constructor
          · rintro ⟨_ | ⟨c', pre⟩, c, post, d', hes, hplace, hc, hpre⟩
            · obtain ⟨rfl, -⟩ := List.cons.inj hes
              rw [List.length_nil] at hplace
              exact absurd ⟨hc, by omega⟩ hodd
            · obtain ⟨rfl, htail⟩ := List.cons.inj hes
              exact ⟨pre, c, post, d', htail, hplace, hc, hpre⟩
          · rintro ⟨pre, c, post, d', rfl, hplace, hc, hpre⟩
            exact ⟨e :: pre, c, post, d', rfl, hplace, hc, hpre⟩
        rw [hsplit]
        simp only [serveEntries, if_neg hodd]
        cases cbs.writeFileRecord with
        | none =>
            simp
        | some cb =>
            simp only
            generalize cb d e.fileNumber e.recordNumber e.registers
              (UInt16.ofNat e.registers.length) unit = r
            by_cases herr : r.1 = .errorNone
            · simp only [herr, ne_eq, not_true_eq_false, if_false, ih]
              have hparity : ∀ n, (place + e.bytes.length + n) % 2 = 0 ↔
                  (place + (n + 1)) % 2 = 0 := by
                intro n
                rw [e.length_bytes]
                omega
              simp only [hparity]
            · have hexception := callbackException_ne_errorNone r.1
              simp [herr, hexception]

/--
Where no entry claims too much, the service of a file request is undefined
exactly if its callback accepts an odd number of entries and the next one has
registers.
-/
theorem serveRecords_eq_none_iff
    {data : List UInt8} (stale : List UInt8) (hsmall : data.length ≤ 251)
    (hinside : ¬ Overruns data) :
    serveRecords cbs unit data stale d = none ↔
      ∃ pre e post d',
        data = (pre ++ e :: post).flatMap FileEntry.bytes ∧
          (∀ c ∈ pre ++ e :: post, c.WellFormed) ∧
          pre.length % 2 = 1 ∧ e.registers ≠ [] ∧
          serveEntries cbs unit 3 pre d = some (.errorNone, d') := by
  have hsize : msgBufSize = 260 := rfl
  have hplace : ∀ n, (3 + n) % 2 = 0 ↔ n % 2 = 1 := by
    omega
  rw [serveRecords]
  generalize hscan : scanEntries msgBufSize data stale = scan
  cases scan with
  | undefined =>
      exact absurd (overruns_of_undefined (by omega) hscan) hinside
  | refused exception =>
      constructor
      · intro h
        cases h
      · rintro ⟨pre, e, post, d', hdata, hes, -⟩
        have hfew := length_le_of_flatMap hdata
        have hentries := scanEntries_of_wellFormed msgBufSize stale
          (by simp) hes (by omega)
        rw [← hdata, hscan] at hentries
        cases hentries
  | entries es =>
      obtain ⟨-, hes, hdata⟩ := wellFormed_of_scanEntries hscan
      simp only [Option.map_eq_none_iff, serveEntries_eq_none_iff, hplace]
      constructor
      · rintro ⟨pre, e, post, d', rfl, hodd, hregisters, hpre⟩
        exact ⟨pre, e, post, d', hdata, hes, hodd, hregisters, hpre⟩
      · rintro ⟨pre, e, post, d', hdata', hes', hodd, hregisters, hpre⟩
        have hfew := length_le_of_flatMap hdata'
        have hentries := scanEntries_of_wellFormed msgBufSize stale
          (by simp) hes' (by omega)
        rw [← hdata', hscan] at hentries
        obtain rfl := Scan.entries.inj hentries
        exact ⟨pre, e, post, d', rfl, hodd, hregisters, hpre⟩

/-- Entries with registers at the second place, for a callback that agrees. -/
theorem serveRecords_traps_at_second :
    serveRecords (δ := Unit)
        ⟨none, none, none, some fun d _ _ _ _ _ => (.errorNone, d)⟩ 1
        ([⟨1, 0, [7]⟩, ⟨1, 1, [8]⟩].flatMap FileEntry.bytes) [] () =
      none := by
  have hwell : ∀ e ∈ [(⟨1, 0, [7]⟩ : FileEntry), ⟨1, 1, [8]⟩],
      e.WellFormed := by
    intro e he
    rcases he with _ | ⟨_, _ | ⟨_, he⟩⟩
    · exact ⟨by decide, by decide, by decide⟩
    · exact ⟨by decide, by decide, by decide⟩
    · cases he
  refine (serveRecords_eq_none_iff [] (by decide)
    (not_overruns_of_wellFormed hwell)).mpr ?_
  exact ⟨[⟨1, 0, [7]⟩], ⟨1, 1, [8]⟩, [], (), rfl, hwell, rfl,
    List.cons_ne_nil _ _, rfl⟩

/-- Nor is its service then a matter of what lies behind the data. -/
theorem serveRecords_stale
    {data : List UInt8} (stale stale' : List UInt8)
    (hinside : ¬ Overruns data) :
    serveRecords cbs unit data stale d =
      serveRecords cbs unit data stale' d := by
  rw [serveRecords, serveRecords, scanEntries_stale stale stale' hinside]

/-- The records of a file request lie inside the request. -/
def Request.Bounded : Request → Prop
  | .writeRecords data => ¬ Overruns data
  | _ => True

/-- The service of such a request does not depend on earlier messages. -/
theorem serve_stale
    {r : Request} (stale stale' : List UInt8) (hr : r.Bounded) :
    serve cbs unit stale r d = serve cbs unit stale' r d := by
  cases r with
  | readRegisters | writeRegister | writeRegisters =>
      rfl
  | writeRecords data =>
      exact serveRecords_stale stale stale' hr

/-- A single entry is found. -/
theorem scanEntries_singleton
    {e : FileEntry} (he : e.WellFormed) (stale : List UInt8) :
    scanEntries msgBufSize e.bytes stale = .entries [e] := by
  have hentries := scanEntries_of_wellFormed msgBufSize stale
    (List.cons_ne_nil e []) (by simpa using he) (by simp [msgBufSize])
  rwa [List.flatMap_singleton] at hentries

/-- The service of a single entry is defined. -/
theorem serveRecords_singleton
    {e : FileEntry} (he : e.WellFormed) (stale : List UInt8) :
    serveRecords cbs unit e.bytes stale d =
      some
        (match cbs.writeFileRecord with
        | none => (.exception .exceptionIllegalFunction, d)
        | some cb =>
            let r := cb d e.fileNumber e.recordNumber e.registers
              (UInt16.ofNat e.registers.length) unit
            if r.1 ≠ .errorNone then
              (.exception (callbackException r.1), r.2)
            else
              (.response (UInt8.ofNat e.bytes.length :: e.bytes), r.2)) := by
  rw [serveRecords, scanEntries_singleton he]
  simp only [serveEntries]
  rw [if_neg (by rintro ⟨-, hodd⟩; omega)]
  cases cbs.writeFileRecord with
  | none =>
      simp
  | some cb =>
      simp only
      generalize cb d e.fileNumber e.recordNumber e.registers
        (UInt16.ofNat e.registers.length) unit = r
      by_cases herr : r.1 = .errorNone
      · simp [herr]
      · have hexception := callbackException_ne_errorNone r.1
        simp [herr, hexception]

end Traps

end Port
end ModbusRtu
