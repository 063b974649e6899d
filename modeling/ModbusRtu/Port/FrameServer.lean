import ModbusRtu.Port.NmbsServerModel

/-!
# A server on frames

What the server is for, stated without a message buffer: it listens for the
frame of a request, serves the request on the device, and delivers the reply.

A frame is a list of bytes, a request is what its fields say, and a file request
is a list of entries. The unit that a frame names decides what becomes of it:
frames of this unit are served and replied to, broadcast frames are served, and
behind the frame of another unit the response of that unit is heard and dropped.

The server is undefined where the code is: on the reception of more bytes than
the buffer holds, on an entry with registers at an odd place of the buffer, on
entries that run past the end of the buffer, and on an overheard response that
claims to be longer than the buffer. The last two depend on what earlier
messages left in the buffer, which therefore is a parameter.
-/

namespace ModbusRtu
namespace Port

open Kernel

section Requests

/-- The halfword at a place of a message. -/
def wordAt (bytes : List UInt8) (i : Nat) : UInt16 :=
  halfword (bytes.getD i 0) (bytes.getD (i + 1) 0)

/-- What a request asks for. -/
inductive Request
  | readRegisters (address quantity : UInt16)
  | writeRegister (address value : UInt16)
  | writeRegisters
      (address quantity : UInt16) (byteCount : UInt8) (data : List UInt8)
  | writeRecords (data : List UInt8)

/-- The function code of a request. -/
def Request.fc : Request → UInt8
  | .readRegisters _ _ => 3
  | .writeRegister _ _ => 6
  | .writeRegisters _ _ _ _ => 16
  | .writeRecords _ => 21

/-- The fields of a request behind its function code. -/
def Request.fields : Request → List UInt8
  | .readRegisters address quantity => wireBytes address ++ wireBytes quantity
  | .writeRegister address value => wireBytes address ++ wireBytes value
  | .writeRegisters address quantity byteCount data =>
      wireBytes address ++ wireBytes quantity ++ byteCount :: data
  | .writeRecords data => UInt8.ofNat data.length :: data

/-- The message of a request to a unit, without its check. -/
def Request.body (unit : UInt8) (r : Request) : List UInt8 :=
  unit :: r.fc :: r.fields

/-- What a request is answered with. -/
inductive Reply
  | response (fields : List UInt8)
  | exception (code : NmbsError)

/-- The message of a reply, without its check. -/
def Reply.body (unit fc : UInt8) : Reply → List UInt8
  | .response fields => unit :: fc :: fields
  | .exception code => [unit, fc + 0x80, code.byte]

/-- The exception that answers an error of a callback. -/
def callbackException (err : NmbsError) : NmbsError :=
  if err.isException then err else .exceptionServerDeviceFailure

end Requests

section Records

/-- One record of a file request. -/
structure FileEntry where
  fileNumber : UInt16
  recordNumber : UInt16
  registers : List UInt16

/-- The bytes of an entry. -/
def FileEntry.bytes (e : FileEntry) : List UInt8 :=
  6 :: (wireBytes e.fileNumber ++ wireBytes e.recordNumber ++
    wireBytes (UInt16.ofNat e.registers.length) ++ wireString e.registers)

/-- What the entries of a file request are found to be. -/
inductive Scan
  | undefined
  | refused (exception : NmbsError)
  | entries (es : List FileEntry)

/-- One more entry in front. -/
def Scan.cons (e : FileEntry) : Scan → Scan
  | .undefined => .undefined
  | .refused exception => .refused exception
  | .entries es => .entries (e :: es)

/-- The fields of an entry are in order. -/
def Acceptable (bytes : List UInt8) : Prop :=
  bytes.getD 0 0 = 6 ∧ wordAt bytes 1 ≠ 0 ∧
    wordAt bytes 3 ≤ 0x270F ∧ wordAt bytes 5 ≤ 122

instance (bytes : List UInt8) : Decidable (Acceptable bytes) :=
  inferInstanceAs (Decidable (_ ∧ _ ∧ _ ∧ _))

/-- The number of bytes an entry claims. -/
def entryLength (bytes : List UInt8) : Nat :=
  7 + 2 * (wordAt bytes 5).toNat

/-- The entry at the front of a message. -/
def entryOf (bytes : List UInt8) : FileEntry where
  fileNumber := wordAt bytes 1
  recordNumber := wordAt bytes 3
  registers :=
    wireHalfwords ((bytes.drop 7).take (2 * (wordAt bytes 5).toNat))

/-- Behind an entry that runs past the request, what is left in the buffer. -/
def scanStale : Nat → List UInt8 → Scan
  | 0, _ => .undefined
  | fuel + 1, stale =>
      if stale.length < 7 then
        .undefined
      else if Acceptable stale then
        scanStale fuel (stale.drop (entryLength stale))
      else
        .refused .exceptionIllegalDataAddress

/-- The entries of a file request, with what is left in the buffer behind. -/
def scanEntries : Nat → List UInt8 → List UInt8 → Scan
  | 0, _, _ => .undefined
  | fuel + 1, data, stale =>
      if data.length < 7 then
        .refused .exceptionIllegalDataValue
      else if Acceptable data then
        if data.length < entryLength data then
          scanStale fuel ((data ++ stale).drop (entryLength data))
        else if data.length = entryLength data then
          .entries [entryOf data]
        else
          (scanEntries fuel (data.drop (entryLength data)) stale).cons
            (entryOf data)
      else
        .refused .exceptionIllegalDataAddress

end Records

section Service

variable {δ : Type}
variable (cbs : NmbsCallbacks δ)
variable (unit : UInt8)

/-- Serve a read request. -/
def serveRead (address quantity : UInt16) (d : δ) : Reply × δ :=
  if quantity < 1 ∨ quantity > 125 then
    (.exception .exceptionIllegalDataValue, d)
  else if address.toNat + quantity.toNat > 0xFFFF + 1 then
    (.exception .exceptionIllegalDataAddress, d)
  else
    match cbs.readHoldingRegisters with
    | none => (.exception .exceptionIllegalFunction, d)
    | some cb =>
        let r := cb d address quantity (fun _ => 0) unit
        if r.1.1 ≠ .errorNone then
          (.exception (callbackException r.1.1), r.2)
        else
          (.response
            (UInt8.ofNat (quantity.toNat * 2) ::
              wireString ((List.range quantity.toNat).map r.1.2)), r.2)

/-- Serve a request to write one register. -/
def serveWrite (address value : UInt16) (d : δ) : Reply × δ :=
  match cbs.writeSingleRegister with
  | none => (.exception .exceptionIllegalFunction, d)
  | some cb =>
      let r := cb d address value unit
      if r.1 ≠ .errorNone then
        (.exception (callbackException r.1), r.2)
      else
        (.response (wireBytes address ++ wireBytes value), r.2)

/-- Serve a request to write several registers. -/
def serveWrites
    (address quantity : UInt16) (byteCount : UInt8) (data : List UInt8)
    (d : δ) : Reply × δ :=
  if quantity < 1 ∨ quantity > 0x007B then
    (.exception .exceptionIllegalDataValue, d)
  else if address.toNat + quantity.toNat > 0xFFFF + 1 then
    (.exception .exceptionIllegalDataAddress, d)
  else if byteCount.toNat ≠ quantity.toNat * 2 then
    (.exception .exceptionIllegalDataValue, d)
  else
    match cbs.writeMultipleRegisters with
    | none => (.exception .exceptionIllegalFunction, d)
    | some cb =>
        let r := cb d address quantity (wireHalfwords data) unit
        if r.1 ≠ .errorNone then
          (.exception (callbackException r.1), r.2)
        else
          (.response (wireBytes address ++ wireBytes quantity), r.2)

/--
Hand entries to the callback up to the first error. The first entry begins at
a place of the message; none if a register of an entry is at an odd place.
-/
def serveEntries : Nat → List FileEntry → δ → Option (NmbsError × δ)
  | _, [], d => some (.errorNone, d)
  | place, e :: es, d =>
      if e.registers ≠ [] ∧ (place + 7) % 2 = 1 then
        none
      else
        match cbs.writeFileRecord with
        | none => some (.exceptionIllegalFunction, d)
        | some cb =>
            let r := cb d e.fileNumber e.recordNumber e.registers
              (UInt16.ofNat e.registers.length) unit
            if r.1 ≠ .errorNone then
              some (callbackException r.1, r.2)
            else
              serveEntries (place + e.bytes.length) es r.2

/-- Serve a file request; none where that is undefined. -/
def serveRecords (data stale : List UInt8) (d : δ) : Option (Reply × δ) :=
  match scanEntries msgBufSize data stale with
  | .undefined => none
  | .refused exception => some (.exception exception, d)
  | .entries es =>
      (serveEntries cbs unit 3 es d).map fun r =>
        (if r.1 ≠ .errorNone then
          .exception r.1
        else
          .response (UInt8.ofNat data.length :: data), r.2)

/-- Serve a request; none where that is undefined. -/
def serve (stale : List UInt8) : Request → δ → Option (Reply × δ)
  | .readRegisters address quantity, d =>
      some (serveRead cbs unit address quantity d)
  | .writeRegister address value, d =>
      some (serveWrite cbs unit address value d)
  | .writeRegisters address quantity byteCount data, d =>
      some (serveWrites cbs unit address quantity byteCount data d)
  | .writeRecords data, d => serveRecords cbs unit data stale d

end Service

section Listening

variable {δ : Type}
variable (crcCalc : List UInt8 → UInt16)
variable (byteTimeoutMs readTimeoutMs : Int32)

/-- What the server does to the line, with an error and a device at its end. -/
abbrev Conduct (δ : Type) :=
  Dialogue LineCall LineAnswer (NmbsError × δ)

/-- Hear n more bytes of a frame, or end with the error of the transfer. -/
def listen (n : Nat) (timeout : Int32) (heard : List UInt8) (d : δ)
    (next : List UInt8 → Conduct δ) : Conduct δ :=
  .ask (.read n timeout) fun a =>
    if msgBufSize < heard.length + a.stored.length then
      .fault
    else if transferStatus a.ret n = .errorNone then
      next (heard ++ a.stored)
    else
      .ret (transferStatus a.ret n, d)

/-- Hear the check of a message, or end with an error. -/
def listenCheck (heard : List UInt8) (d : δ) (next : Conduct δ) :
    Conduct δ :=
  .ask (.read 2 byteTimeoutMs) fun a =>
    if transferStatus a.ret 2 ≠ .errorNone then
      .ret (transferStatus a.ret 2, d)
    else if a.stored = wireBytes (crcCalc heard) then
      next
    else
      .ret (.errorCrc, d)

/-- Hear the header of a response and go on if it is a normal response. -/
def overhearHeader (unit fc : UInt8) (d : δ)
    (next : List UInt8 → Conduct δ) : Conduct δ :=
  listen 1 readTimeoutMs [] d fun h =>
    listen 1 byteTimeoutMs h d fun h =>
      if h.getD 0 0 ≠ unit then
        .ret (.errorInvalidUnitId, d)
      else if h.getD 1 0 = fc then
        next h
      else if ((h.getD 1 0).toNat : Int) - 0x80 = fc.toNat then
        listen 1 byteTimeoutMs h d fun h =>
          listenCheck crcCalc byteTimeoutMs h d
            (if h.getD 2 0 < 1 ∨ h.getD 2 0 > 4 then
              .ret (.errorInvalidResponse, d)
            else
              .ret (exceptionOfByte (h.getD 2 0), d))
      else
        .ret (.errorInvalidResponse, d)

/-- Hear the response to a read request of another unit. -/
def overhearRead (unit : UInt8) (quantity : UInt16) (d : δ) : Conduct δ :=
  overhearHeader crcCalc byteTimeoutMs readTimeoutMs unit 3 d fun h =>
    listen 1 byteTimeoutMs h d fun h =>
      if h.getD 2 0 > 250 then
        .ret (.errorInvalidResponse, d)
      else
        listen (h.getD 2 0).toNat byteTimeoutMs h d fun h =>
          listenCheck crcCalc byteTimeoutMs
            (h.take (3 + 2 * ((h.getD 2 0).toNat / 2))) d
            (if (h.getD 2 0).toNat ≠ quantity.toNat * 2 then
              .ret (.errorInvalidResponse, d)
            else
              .ret (.errorNone, d))

/-- Hear the response to a register write of another unit. -/
def overhearWrite (unit fc : UInt8) (first second : UInt16) (d : δ) :
    Conduct δ :=
  overhearHeader crcCalc byteTimeoutMs readTimeoutMs unit fc d fun h =>
    listen 4 byteTimeoutMs h d fun h =>
      listenCheck crcCalc byteTimeoutMs h d
        (if wordAt h 2 ≠ first ∨ wordAt h 4 ≠ second then
          .ret (.errorInvalidResponse, d)
        else
          .ret (.errorNone, d))

/--
Hear the response to a file request of another unit. The length field of its
record decides where the check is expected; the buffer as the request has left
it supplies what the response does not.
-/
def overhearRecords (unit : UInt8) (buf : ByteMem) (d : δ) : Conduct δ :=
  overhearHeader crcCalc byteTimeoutMs readTimeoutMs unit 21 d fun h =>
    listen 1 byteTimeoutMs h d fun h =>
      if h.getD 2 0 > 251 then
        .ret (.errorInvalidResponse, d)
      else
        listen (h.getD 2 0).toNat byteTimeoutMs h d fun h =>
          let image := storeBytes buf 0 h
          let len := halfword (image 8) (image 9)
          let checkPlace := (10 + len.toNat * 2 % 65536) % 65536
          if msgBufSize < checkPlace then
            .fault
          else
            .ask (.read 2 byteTimeoutMs) fun a =>
              if ¬ Inside checkPlace a.stored.length then
                .fault
              else if transferStatus a.ret 2 ≠ .errorNone then
                .ret (transferStatus a.ret 2, d)
              else if a.stored =
                  wireBytes (crcCalc (window image 0 checkPlace)) then
                .ret (.errorNone, d)
              else
                .ret (.errorCrc, d)

/-- Hear the response of another unit to a request. -/
def overhear (unit : UInt8) (buf : ByteMem) (d : δ) : Request → Conduct δ
  | .readRegisters _ quantity =>
      overhearRead crcCalc byteTimeoutMs readTimeoutMs unit quantity d
  | .writeRegister address value =>
      overhearWrite crcCalc byteTimeoutMs readTimeoutMs unit 6 address value d
  | .writeRegisters address quantity _ _ =>
      overhearWrite crcCalc byteTimeoutMs readTimeoutMs unit 16 address
        quantity d
  | .writeRecords _ =>
      overhearRecords crcCalc byteTimeoutMs readTimeoutMs unit buf d

/-- Deliver a reply, unless the request was a broadcast. -/
def deliver (unit fc : UInt8) (reply : Reply) (d : δ) : Conduct δ :=
  if unit = nmbsBroadcastAddress then
    .ret (.errorNone, d)
  else
    let frame := withCheck crcCalc (reply.body unit fc)
    .ask (.write frame byteTimeoutMs) fun ret =>
      .ret (transferStatus ret frame.length, d)

end Listening

section FrameServer

variable {δ : Type}
variable (conf : NmbsConf δ)
variable (byteTimeoutMs readTimeoutMs : Int32)

/-- What becomes of a request whose frame has been heard. -/
def meetRequest (unit : UInt8) (old : ByteMem) (r : Request) (d : δ) :
    Conduct δ :=
  let frame := withCheck conf.crcCalc (r.body unit)
  let buf := storeBytes old 0 frame
  if unit = nmbsBroadcastAddress ∨ unit = conf.addressRtu then
    let place := (r.body unit).length
    match serve conf.callbacks unit (window buf place (msgBufSize - place))
        r d with
    | none => .fault
    | some (reply, d') =>
        deliver conf.crcCalc byteTimeoutMs unit r.fc reply d'
  else
    overhear conf.crcCalc byteTimeoutMs readTimeoutMs unit buf d r

/-- Hear the check of a request and meet the request. -/
def checkRequest (unit : UInt8) (old : ByteMem) (r : Request) (d : δ) :
    Conduct δ :=
  listenCheck conf.crcCalc byteTimeoutMs (r.body unit) d
    (meetRequest conf byteTimeoutMs readTimeoutMs unit old r d)

/-- Hear the rest of a frame behind its unit and function code. -/
def hearRequest (unit fc : UInt8) (old : ByteMem) (d : δ) : Conduct δ :=
  if fc = 3 then
    listen 4 byteTimeoutMs [unit, fc] d fun h =>
      checkRequest conf byteTimeoutMs readTimeoutMs unit old
        (.readRegisters (wordAt h 2) (wordAt h 4)) d
  else if fc = 6 then
    listen 4 byteTimeoutMs [unit, fc] d fun h =>
      checkRequest conf byteTimeoutMs readTimeoutMs unit old
        (.writeRegister (wordAt h 2) (wordAt h 4)) d
  else if fc = 16 then
    listen 5 byteTimeoutMs [unit, fc] d fun h =>
      listen (h.getD 6 0).toNat byteTimeoutMs h d fun h =>
        if h.getD 6 0 > 246 then
          .ret (.errorInvalidRequest, d)
        else
          checkRequest conf byteTimeoutMs readTimeoutMs unit old
            (.writeRegisters (wordAt h 2) (wordAt h 4) (h.getD 6 0)
              ((h.drop 7).take (2 * ((h.getD 6 0).toNat / 2)))) d
  else if fc = 21 then
    listen 1 byteTimeoutMs [unit, fc] d fun h =>
      if h.getD 2 0 > 251 then
        .ret (.errorInvalidRequest, d)
      else
        listen (h.getD 2 0).toNat byteTimeoutMs h d fun h =>
          checkRequest conf byteTimeoutMs readTimeoutMs unit old
            (.writeRecords (h.drop 3)) d
  else
    .ask (.read msgBufSize 0) fun _ =>
      if unit = nmbsBroadcastAddress ∨ unit = conf.addressRtu then
        deliver conf.crcCalc byteTimeoutMs unit fc
          (.exception .exceptionIllegalFunction) d
      else
        .ret (.errorNone, d)

/-- Behind an error other than a timeout what is on the line is dropped. -/
def dropRest (r : NmbsError × δ) : Conduct δ :=
  if r.1 ≠ .errorNone ∧ r.1 ≠ .errorTimeout then
    .ask (.read msgBufSize 0) fun _ => .ret r
  else
    .ret r

/-- One poll: hear a frame and meet its request. -/
def frameServer (old : ByteMem) (d : δ) : Conduct δ :=
  .ask (.read 1 readTimeoutMs) fun a =>
    if transferStatus a.ret 1 ≠ .errorNone then
      .ret
        (if transferStatus a.ret 1 = .errorTimeout then .errorNone
          else transferStatus a.ret 1, d)
    else
      listen 1 byteTimeoutMs a.stored d fun h =>
        (hearRequest conf byteTimeoutMs readTimeoutMs (h.getD 0 0)
          (h.getD 1 0) old d).bind dropRest

end FrameServer

end Port
end ModbusRtu
