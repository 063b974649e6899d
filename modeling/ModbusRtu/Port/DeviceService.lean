import ModbusRtu.Port.LineContract
import ModbusRtu.Port.RegisterMap
import ModbusRtu.Port.RequestFormat
import ModbusRtu.Port.ServerSetup
import ModbusRtu.Port.SessionDiscipline

/-!
# What the device is to its clients

A client sees two registers and a receiver of file records. The registers are a
counter of 16 bits and a lamp. Accesses to other registers are answered with an
exception, a write to several registers being done up to the first of them. The
records of a file request go to the receiver up to the first refused one.

The server with the callbacks of port.c serves requests as this device does. So
whatever happens on the line, the replies of the server to the requests that it
serves are those of the device, fed with the same requests in the same order,
and at every moment the board and the receiver are in the state in which these
requests leave the device.
-/

namespace ModbusRtu
namespace Port

open Kernel

section Store

/-- The registers as a client sees them. -/
structure RegisterStore where
  counter : UInt16
  led : Bool
deriving DecidableEq

/-- The value of register k. -/
def RegisterStore.get (m : RegisterStore) (k : Nat) : UInt16 :=
  if k = 0 then m.counter
  else if k = 1 then
    if m.led then 1 else 0
  else
    0

/-- The store with a value written to register k. -/
def RegisterStore.put (m : RegisterStore) (k : Nat) (value : UInt16) :
    RegisterStore :=
  if k = 0 then { m with counter := value }
  else if k = 1 then { m with led := decide (value ≠ 0) }
  else m

/-- The store with values written from register k on. -/
def RegisterStore.putAll (m : RegisterStore) :
    Nat → List UInt16 → RegisterStore
  | _, [] => m
  | k, value :: values => (m.put k value).putAll (k + 1) values

theorem RegisterStore.put_unmapped
    (m : RegisterStore) {k : Nat} (hk : mappedRegisters ≤ k)
    (value : UInt16) :
    m.put k value = m := by
  rw [mappedRegisters] at hk
  rw [RegisterStore.put, if_neg (by omega), if_neg (by omega)]

theorem RegisterStore.putAll_unmapped
    (m : RegisterStore) {k : Nat} (hk : mappedRegisters ≤ k)
    (values : List UInt16) :
    m.putAll k values = m := by
  induction values generalizing k with
  | nil =>
      rfl
  | cons value values ih =>
      rw [RegisterStore.putAll, m.put_unmapped hk, ih (by omega)]

end Store

section Views

/-- The registers and the receiver of a device. -/
structure DeviceView where
  registers : RegisterStore
  receiver : FileReceiver

/-- The record that an entry of a file request stands for. -/
def FileEntry.record (e : FileEntry) : FileRecord :=
  fileRecordOf e.fileNumber e.recordNumber e.registers
    (UInt16.ofNat e.registers.length)

/-- Hand records to the receiver up to the first refused one. -/
def handOn (s : FileReceiver) (rs : List FileRecord) :
    List NmbsError × FileReceiver :=
  runWhile serverWriteFileRecord (· = .errorNone) s rs

/-- The reply to an access to n registers from register k on. -/
def accessReply (k n : Nat) (fields : List UInt8) : Reply :=
  if k + n ≤ mappedRegisters then .response fields
  else .exception .exceptionServerDeviceFailure

/-- What the device answers and becomes. -/
def DeviceView.serve (v : DeviceView) : Request → Reply × DeviceView
  | .readRegisters address quantity =>
      if quantity < 1 ∨ quantity > 125 then
        (.exception .exceptionIllegalDataValue, v)
      else if address.toNat + quantity.toNat > 0xFFFF + 1 then
        (.exception .exceptionIllegalDataAddress, v)
      else
        (accessReply address.toNat quantity.toNat
          (UInt8.ofNat (quantity.toNat * 2) ::
            wireString ((List.range quantity.toNat).map fun i =>
              v.registers.get (address.toNat + i))), v)
  | .writeRegister address value =>
      (accessReply address.toNat 1 (wireBytes address ++ wireBytes value),
        { v with registers := v.registers.put address.toNat value })
  | .writeRegisters address quantity byteCount data =>
      if quantity < 1 ∨ quantity > 0x007B then
        (.exception .exceptionIllegalDataValue, v)
      else if address.toNat + quantity.toNat > 0xFFFF + 1 then
        (.exception .exceptionIllegalDataAddress, v)
      else if byteCount.toNat ≠ quantity.toNat * 2 then
        (.exception .exceptionIllegalDataValue, v)
      else
        (accessReply address.toNat quantity.toNat
          (wireBytes address ++ wireBytes quantity),
          { v with
            registers := v.registers.putAll address.toNat
              ((List.range quantity.toNat).map
                (registersOf (wireHalfwords data))) })
  | .writeRecords data =>
      match scanEntries msgBufSize data [] with
      | .undefined => (.exception .exceptionIllegalDataAddress, v)
      | .refused exception => (.exception exception, v)
      | .entries es =>
          let r := handOn v.receiver (es.map FileEntry.record)
          (if ∀ e ∈ r.1, e = .errorNone then
            .response (UInt8.ofNat data.length :: data)
          else
            .exception .exceptionServerDeviceFailure,
            { v with receiver := r.2 })

variable {γ : Type}

/-- The registers of a board. -/
def storeOf (pin : OutputPin γ) (b : Board γ) : RegisterStore where
  counter := uint16OfInt b.loopCount
  led := decide (pin.halGpioReadPin b.gpio = .gpioPinSet)

/-- The view of a device. -/
def viewOf (pin : OutputPin γ) (d : PortDevice γ) : DeviceView where
  registers := storeOf pin d.board
  receiver := d.receiver

end Views

section Registers

variable {γ : Type}
variable {pin : OutputPin γ}
variable {b : Board γ}

theorem get_storeOf (k : Nat) :
    (storeOf pin b).get k = registerValue pin b k := by
  simp only [RegisterStore.get, storeOf, registerValue,
    uint16OfInt_getLedPinState, decide_eq_true_eq]

/-- A write that is not refused puts the value into the store. -/
theorem storeOf_writeRegister
    {b' : Board γ} {reg value : UInt16}
    (hwrite : writeRegister pin b reg value = some b') :
    storeOf pin b' = (storeOf pin b).put reg.toNat value := by
  simp only [writeRegister] at hwrite
  split at hwrite
  · rename_i hreg
    have hb := Option.some.inj hwrite
    subst hb hreg
    simp [storeOf, RegisterStore.put]
  · split at hwrite
    · rename_i hreg
      have hb := Option.some.inj hwrite
      rw [setLedPinState_intOfUInt16] at hb
      subst hb hreg
      by_cases hvalue : value = 0
      · simp [storeOf, RegisterStore.put, ledLevel, pin.read_write, hvalue]
      · simp [storeOf, RegisterStore.put, ledLevel, pin.read_write, hvalue]
    · cases hwrite

/-- The write loop puts values into the store up to the first refused one. -/
theorem storeOf_writeLoop
    {address : UInt16} {values : Nat → UInt16} {i n : Nat}
    (hfit : address.toNat + (i + n) ≤ 65536) :
    storeOf pin
        (refusingLoop
          (fun b i => writeRegister pin b (curReg address i) (values i))
          i n b).2 =
      (storeOf pin b).putAll (address.toNat + i)
        ((List.range' i n).map values) := by
  induction n generalizing i b with
  | zero =>
      rfl
  | succ n ih =>
      have hreg : (curReg address i).toNat = address.toNat + i := by
        rw [toNat_curReg]
        omega
      rw [List.range'_succ, List.map_cons, RegisterStore.putAll]
      cases hpass : writeRegister pin b (curReg address i) (values i) with
      | none =>
          have hunmapped := writeRegister_eq_none_iff.mp hpass
          have hbehind : mappedRegisters ≤ address.toNat + i := by
            rw [mappedRegisters]
            omega
          rw [refusingLoop_refused hpass,
            RegisterStore.put_unmapped _ hbehind,
            RegisterStore.putAll_unmapped _ (by omega)]
      | some b' =>
          rw [refusingLoop_passed hpass, ih (by omega),
            storeOf_writeRegister hpass, hreg, Nat.add_assoc]

theorem storeOf_serverWriteMultipleRegisters
    {address quantity : UInt16} {values : Nat → UInt16}
    (hfit : address.toNat + quantity.toNat ≤ 65536) :
    storeOf pin
        (serverWriteMultipleRegisters pin b address quantity values).2 =
      (storeOf pin b).putAll address.toNat
        ((List.range quantity.toNat).map values) := by
  rw [serverWriteMultipleRegisters, loopReply,
    storeOf_writeLoop (by omega), Nat.add_zero, List.range_eq_range']

theorem storeOf_serverWriteSingleRegister
    {address value : UInt16} :
    storeOf pin (serverWriteSingleRegister pin b address value).2 =
      (storeOf pin b).put address.toNat value := by
  have haddress := address.toNat_lt
  rw [serverWriteSingleRegister, storeOf_serverWriteMultipleRegisters
    (by rw [UInt16.toNat_one]; omega)]
  rfl

end Registers

section Service

variable {γ : Type}
variable {pin : OutputPin γ}
variable {unit : UInt8} {d d' : PortDevice γ}

theorem loopReply_of_ne {σ : Type} {loop : Bool × σ}
    (h : (loopReply loop).1 ≠ .errorNone) :
    (loopReply loop).1 = .errorInvalidRequest := by
  cases hdone : loop.1 with
  | true =>
      exact absurd (loopReply_errorNone_iff.mpr hdone) h
  | false =>
      simp [loopReply, hdone]

/-- The handlers of port.c refuse with an error that is no exception. -/
theorem callbackException_invalidRequest :
    callbackException .errorInvalidRequest =
      .exceptionServerDeviceFailure := by
  rfl

theorem serve_readRegisters (address quantity : UInt16) :
    (viewOf pin d).serve (.readRegisters address quantity) =
      ((serveRead (portCallbacks pin) unit address quantity d).1,
        viewOf pin
          (serveRead (portCallbacks pin) unit address quantity d).2) := by
  rw [serveRead, DeviceView.serve]
  split
  · rfl
  · split
    · rfl
    · rename_i hquantity _
      have hpos : 1 ≤ quantity.toNat := by
        rw [not_or, UInt16.not_lt, UInt16.le_iff_toNat_le] at hquantity
        exact hquantity.1
      have haccepts := serverReadHoldingRegisters_accepts_iff pin d.board
        address quantity (fun _ => 0) hpos
      simp only [portCallbacks, accessReply]
      by_cases hin : address.toNat + quantity.toNat ≤ mappedRegisters
      · have haccepted := haccepts.mpr hin
        have hvalues : (List.range quantity.toNat).map
            (serverReadHoldingRegisters pin d.board address quantity
              fun _ => 0).2 =
            (List.range quantity.toNat).map fun i =>
              (viewOf pin d).registers.get (address.toNat + i) := by
          refine List.map_congr_left fun i hi => ?_
          rw [serverReadHoldingRegisters_value haccepted
            (List.mem_range.mp hi)]
          exact (get_storeOf _).symm
        rw [if_pos hin, if_neg (not_not.mpr haccepted), hvalues]
      · have hrefused := mt haccepts.mp hin
        have herr : (serverReadHoldingRegisters pin d.board address quantity
            fun _ => 0).1 = .errorInvalidRequest := loopReply_of_ne hrefused
        rw [if_neg hin, if_pos hrefused, herr]
        rfl

theorem serve_writeRegister (address value : UInt16) :
    (viewOf pin d).serve (.writeRegister address value) =
      ((serveWrite (portCallbacks pin) unit address value d).1,
        viewOf pin
          (serveWrite (portCallbacks pin) unit address value d).2) := by
  have haccepts := serverWriteMultipleRegisters_accepts_iff pin d.board
    address 1 (fun _ => value) (Nat.le_refl 1)
  have hstore := @storeOf_serverWriteSingleRegister γ pin d.board address
    value
  rw [serveWrite, DeviceView.serve]
  simp only [portCallbacks, accessReply, serverWriteSingleRegister]
  by_cases hin : address.toNat + 1 ≤ mappedRegisters
  · rw [if_pos hin, if_neg (not_not.mpr (haccepts.mpr hin))]
    simp only [viewOf, ← hstore, serverWriteSingleRegister]
  · have hrefused := mt haccepts.mp hin
    have herr : (serverWriteMultipleRegisters pin d.board address 1
        fun _ => value).1 = .errorInvalidRequest := loopReply_of_ne hrefused
    rw [if_neg hin, if_pos hrefused, herr, callbackException_invalidRequest]
    simp only [viewOf, ← hstore, serverWriteSingleRegister]

theorem serve_writeRegisters
    (address quantity : UInt16) (byteCount : UInt8) (data : List UInt8) :
    (viewOf pin d).serve (.writeRegisters address quantity byteCount data) =
      ((serveWrites (portCallbacks pin) unit address quantity byteCount
        data d).1,
        viewOf pin (serveWrites (portCallbacks pin) unit address quantity
          byteCount data d).2) := by
  rw [serveWrites, DeviceView.serve]
  split
  · rfl
  · split
    · rfl
    · split
      · rfl
      · rename_i hquantity hfit _
        have hpos : 1 ≤ quantity.toNat := by
          rw [not_or, UInt16.not_lt, UInt16.le_iff_toNat_le] at hquantity
          exact hquantity.1
        have haccepts := serverWriteMultipleRegisters_accepts_iff pin
          d.board address quantity (registersOf (wireHalfwords data)) hpos
        have hstore := @storeOf_serverWriteMultipleRegisters γ pin d.board
          address quantity (registersOf (wireHalfwords data)) (by omega)
        simp only [portCallbacks, accessReply]
        by_cases hin : address.toNat + quantity.toNat ≤ mappedRegisters
        · rw [if_pos hin, if_neg (not_not.mpr (haccepts.mpr hin))]
          simp only [viewOf, ← hstore]
        · have hrefused := mt haccepts.mp hin
          have herr : (serverWriteMultipleRegisters pin d.board address
              quantity (registersOf (wireHalfwords data))).1 =
                .errorInvalidRequest := loopReply_of_ne hrefused
          rw [if_neg hin, if_pos hrefused, herr,
            callbackException_invalidRequest]
          simp only [viewOf, ← hstore]

/-- The receiver refuses with an error that is no exception. -/
theorem reply_of_not_acknowledged
    {s : FileReceiver} {r : FileRecord}
    (h : (serverWriteFileRecord s r).1 ≠ .errorNone) :
    (serverWriteFileRecord s r).1 = .errorInvalidRequest := by
  have hout := serverWriteFileRecord_outcome s r
  generalize serverWriteFileRecord s r = out at hout h ⊢
  cases hout with
  | headAccepted | tailDelivered | dataStored =>
      exact absurd rfl h
  | outOfRange | headRejected | tailIncomplete | tailWithoutBuffer
  | tailClosed | dataClosed | dataTooLong | dataCut =>
      rfl

theorem serveEntries_port_cons
    (place : Nat) (e : FileEntry) (es : List FileEntry) :
    serveEntries (portCallbacks pin) unit place (e :: es) d =
      if e.registers ≠ [] ∧ (place + 7) % 2 = 1 then
        none
      else
        let r := serverWriteFileRecord d.receiver e.record
        if r.1 ≠ .errorNone then
          some (callbackException r.1, { d with receiver := r.2 })
        else
          serveEntries (portCallbacks pin) unit (place + e.bytes.length) es
            { d with receiver := r.2 } := by
  rw [serveEntries]
  rfl

/-- Entries go to the receiver up to the first refused one. -/
theorem serveEntries_port
    {place : Nat} {es : List FileEntry} {err : NmbsError}
    (h : serveEntries (portCallbacks pin) unit place es d =
      some (err, d')) :
    err =
        (if ∀ e ∈ (handOn d.receiver (es.map FileEntry.record)).1,
            e = .errorNone then
          .errorNone
        else
          .exceptionServerDeviceFailure) ∧
      d' = { d with
        receiver := (handOn d.receiver (es.map FileEntry.record)).2 } := by
  induction es generalizing place d with
  | nil =>
      cases h
      exact ⟨by simp [handOn, runWhile], rfl⟩
  | cons e es ih =>
      rw [serveEntries_port_cons] at h
      split at h
      · cases h
      · dsimp only at h
        simp only [List.map_cons, handOn, runWhile]
        by_cases hack :
            (serverWriteFileRecord d.receiver e.record).1 = .errorNone
        · rw [if_neg (not_not.mpr hack)] at h
          obtain ⟨herr, hdevice⟩ := ih h
          rw [if_pos hack]
          refine ⟨?_, hdevice⟩
          simp only [List.forall_mem_cons, hack, true_and]
          exact herr
        · rw [if_pos hack] at h
          obtain ⟨rfl, rfl⟩ := Prod.mk.inj (Option.some.inj h)
          rw [if_neg hack]
          simp [reply_of_not_acknowledged hack,
            callbackException_invalidRequest]

theorem scanStale_cases (fuel : Nat) (stale : List UInt8) :
    scanStale fuel stale = .undefined ∨
      scanStale fuel stale = .refused .exceptionIllegalDataAddress := by
  induction fuel generalizing stale with
  | zero =>
      exact Or.inl rfl
  | succ fuel ih =>
      rw [scanStale]
      split
      · exact Or.inl rfl
      · split
        · exact ih _
        · exact Or.inr rfl

/--
What lies behind the data decides nothing but whether data that claims too much
is refused or undefined.
-/
theorem scanEntries_cases
    (fuel : Nat) (data stale : List UInt8) :
    scanEntries fuel data stale = scanEntries fuel data [] ∨
      scanEntries fuel data [] = .undefined ∧
        (scanEntries fuel data stale = .undefined ∨
          scanEntries fuel data stale =
            .refused .exceptionIllegalDataAddress) := by
  induction fuel generalizing data with
  | zero =>
      exact Or.inl rfl
  | succ fuel ih =>
      rw [scanEntries, scanEntries]
      split
      · exact Or.inl rfl
      · split
        · split
          · rename_i hover
            refine Or.inr ⟨?_, scanStale_cases _ _⟩
            rw [List.append_nil, List.drop_of_length_le (by omega)]
            cases fuel with
            | zero =>
                rfl
            | succ fuel =>
                rfl
          · split
            · exact Or.inl rfl
            · rcases ih (data.drop (entryLength data)) with
                hsame | ⟨hnone, hundefined | hrefused⟩
              · rw [hsame]
                exact Or.inl rfl
              · rw [hnone, hundefined]
                exact Or.inl rfl
              · rw [hnone, hrefused]
                exact Or.inr ⟨rfl, Or.inr rfl⟩
        · exact Or.inl rfl

theorem serve_writeRecords
    {data stale : List UInt8} {reply : Reply}
    (h : serveRecords (portCallbacks pin) unit data stale d =
      some (reply, d')) :
    (viewOf pin d).serve (.writeRecords data) = (reply, viewOf pin d') := by
  rw [DeviceView.serve]
  rw [serveRecords] at h
  rcases scanEntries_cases msgBufSize data stale with
    hsame | ⟨hnone, hundefined | hrefused⟩
  · rw [hsame] at h
    cases hscan : scanEntries msgBufSize data [] with
    | undefined =>
        rw [hscan] at h
        cases h
    | refused exception =>
        rw [hscan] at h
        cases h
        rfl
    | entries es =>
        rw [hscan] at h
        obtain ⟨⟨err, d''⟩, hentries, hreply⟩ := Option.map_eq_some_iff.mp h
        obtain ⟨herr, rfl⟩ := serveEntries_port hentries
        obtain ⟨rfl, rfl⟩ := Prod.mk.inj hreply
        dsimp only [viewOf]
        rw [herr]
        by_cases hall : ∀ e ∈ (handOn d.receiver
            (es.map FileEntry.record)).1, e = .errorNone
        · rw [if_pos hall, if_neg (by rw [if_pos hall]; simp)]
        · rw [if_neg hall, if_pos (by rw [if_neg hall]; simp), if_neg hall]
  · rw [hundefined] at h
    cases h
  · rw [hrefused] at h
    rw [hnone]
    cases h
    rfl

/-- The server with the callbacks of port.c serves as the device does. -/
theorem serve_refines_view
    {r : Request} {stale : List UInt8} {reply : Reply}
    (h : serve (portCallbacks pin) unit stale r d = some (reply, d')) :
    (viewOf pin d).serve r = (reply, viewOf pin d') := by
  cases r with
  | readRegisters address quantity =>
      rw [@serve_readRegisters γ pin unit d, Option.some.inj h]
  | writeRegister address value =>
      rw [@serve_writeRegister γ pin unit d, Option.some.inj h]
  | writeRegisters address quantity byteCount data =>
      rw [@serve_writeRegisters γ pin unit d, Option.some.inj h]
  | writeRecords data =>
      exact serve_writeRecords h

end Service

section Runs

variable {γ : Type}
variable {pin : OutputPin γ}

/-- The request of an exchange; none for the refusal of a function code. -/
def Exchange.request : Exchange → Option Request
  | .served _ r _ _ => some r
  | .refused _ _ => none

/-- The reply to the request of an exchange. -/
def Exchange.reply : Exchange → Option Reply
  | .served _ _ _ reply => some reply
  | .refused _ _ => none

/--
The replies of the server to the requests that it serves, and the device, are
those of the device that is fed with these requests.
-/
theorem exchanges_refine_view
    {unit : UInt8} {xs : List Exchange} {d d' : PortDevice γ}
    (h : Exchanges (portConf pin unit) xs d d') :
    xs.filterMap Exchange.reply =
        runReplies DeviceView.serve (viewOf pin d)
          (xs.filterMap Exchange.request) ∧
      viewOf pin d' =
        runState DeviceView.serve (viewOf pin d)
          (xs.filterMap Exchange.request) := by
  induction h with
  | nil d =>
      exact ⟨rfl, rfl⟩
  | cons hx hxs ih =>
      cases hx with
      | served stale hours hpad hserve =>
          have hstep := serve_refines_view hserve
          simp only [List.filterMap_cons, Exchange.reply, Exchange.request,
            runReplies_cons, runState_cons, hstep]
          exact ⟨congrArg _ ih.1, ih.2⟩
      | refused hours hfc =>
          exact ih

/-- The records that a request asks the receiver to take. -/
def Request.records : Request → List FileRecord
  | .writeRecords data =>
      match scanEntries msgBufSize data [] with
      | .entries es => es.map FileEntry.record
      | _ => []
  | _ => []

/-- A request hands its records to the receiver. -/
theorem receiver_of_serve (v : DeviceView) (r : Request) :
    (v.serve r).2.receiver = (handOn v.receiver r.records).2 := by
  cases r with
  | readRegisters address quantity =>
      simp only [DeviceView.serve]
      split
      · rfl
      · split <;> rfl
  | writeRegister address value =>
      rfl
  | writeRegisters address quantity byteCount data =>
      simp only [DeviceView.serve]
      split
      · rfl
      · split
        · rfl
        · split <;> rfl
  | writeRecords data =>
      rw [Request.records, DeviceView.serve]
      cases scanEntries msgBufSize data [] with
      | undefined | refused exception =>
          rfl
      | entries es =>
          rfl

/-- Along a run the receiver takes records of the requests, in their order. -/
theorem receiver_of_run (v : DeviceView) (rs : List Request) :
    ∃ calls, calls.Sublist (rs.flatMap Request.records) ∧
      (runState DeviceView.serve v rs).receiver =
        runState serverWriteFileRecord v.receiver calls := by
  induction rs generalizing v with
  | nil =>
      exact ⟨[], List.nil_sublist _, rfl⟩
  | cons r rs ih =>
      obtain ⟨calls, hprefix, hfirst⟩ :=
        exists_prefix_runWhile serverWriteFileRecord (· = .errorNone)
          v.receiver r.records
      obtain ⟨calls', hsublist, hrest⟩ := ih (v.serve r).2
      refine ⟨calls ++ calls', ?_, ?_⟩
      · rw [List.flatMap_cons]
        exact hprefix.sublist.append hsublist
      · rw [runState_cons, hrest, receiver_of_serve, handOn, hfirst,
          runState_append]

/-- What may have been heard where the firmware runs into a hazard. -/
def FirmwareHazard (pin : OutputPin γ) (d : PortDevice γ)
    (line line' : Line) : Prop :=
  ∃ xs d' mid old bytes,
    Outcome (portConf pin nmbsId) xs d line d' mid ∧
      Hazard (portConf pin nmbsId) old d' bytes ∧ line' = mid.hear bytes

/--
The firmware on any line: after the setup of main every number of polls makes
exchanges whose replies, and leaves a device whose state, are those of the
device fed with the requests served, up to a hazard.
-/
theorem firmware_refines_view
    (pin : OutputPin γ) (g : γ) (line : Line) (n : Nat) :
    (mainSetup pin g).1.conf = some (portConf pin nmbsId) ∧
      Leads anyLine (FirmwareHazard pin (startDevice pin g) line)
        (times (nmbsServerPoll (portConf pin nmbsId)) n)
        ((mainSetup pin g).1.server (mainSetup pin g).2) line
        fun _ s' line' =>
          ∃ xs : List Exchange, xs.length ≤ n ∧
            Outcome (portConf pin nmbsId) xs (startDevice pin g) line
              s'.device line' ∧
            xs.filterMap Exchange.reply =
              runReplies DeviceView.serve (viewOf pin (startDevice pin g))
                (xs.filterMap Exchange.request) ∧
            viewOf pin s'.device =
              runState DeviceView.serve (viewOf pin (startDevice pin g))
                (xs.filterMap Exchange.request) := by
  obtain ⟨hconf, hserver⟩ := mainSetup_spec pin g
  refine ⟨hconf, ?_⟩
  rw [hserver]
  refine (polls_outcome rfl (portServer (startDevice pin g)) line n).imp ?_
  rintro errs s' line' ⟨-, -, xs, hlen, houtcome⟩
  obtain ⟨hreplies, hview⟩ := exchanges_refine_view houtcome.took
  exact ⟨xs, hlen, houtcome, hreplies, hview⟩

/--
Memory safety on any line: up to a hazard, at any time the receiver has taken
records of the frames served, in their order, its write pointer lies inside the
announced length of the last head, and no further record stores outside of it or
changes a byte from there on.
-/
theorem firmware_receives_safely
    (pin : OutputPin γ) (g : γ) (line : Line) (n : Nat) :
    Leads anyLine (FirmwareHazard pin (startDevice pin g) line)
      (times (nmbsServerPoll (portConf pin nmbsId)) n)
      ((mainSetup pin g).1.server (mainSetup pin g).2) line
      fun _ s' line' =>
        ∃ (xs : List Exchange) (calls : List FileRecord),
          Outcome (portConf pin nmbsId) xs (startDevice pin g) line
            s'.device line' ∧
          calls.Sublist
            ((xs.filterMap Exchange.request).flatMap Request.records) ∧
          s'.device.receiver = receiverAfter calls ∧
          ContextBounded s'.device.receiver (ledgerAfter calls) ∧
          ∀ r, LoopInsideBuffer s'.device.receiver (ledgerAfter calls) r ∧
            StoresBelowEnd s'.device.receiver (ledgerAfter calls) r := by
  rw [(mainSetup_spec pin g).2]
  refine (polls_outcome rfl (portServer (startDevice pin g)) line n).imp ?_
  rintro errs s' line' ⟨-, -, xs, hlen, houtcome⟩
  obtain ⟨-, hview⟩ := exchanges_refine_view houtcome.took
  obtain ⟨calls, hsublist, hrun⟩ :=
    receiver_of_run (viewOf pin (startDevice pin g))
      (xs.filterMap Exchange.request)
  have hreceiver : s'.device.receiver = receiverAfter calls := by
    refine Eq.trans ?_ hrun
    exact congrArg DeviceView.receiver hview
  have hinv := ledgerInv_after calls
  rw [← hreceiver] at hinv
  exact ⟨xs, calls, houtcome, hsublist, hreceiver,
    contextBounded_of_ledgerInv hinv, fun r =>
      ⟨loopInsideBuffer_of_ledgerInv hinv r,
        storesBelowEnd_of_ledgerInv hinv r⟩⟩

end Runs

end Port
end ModbusRtu
