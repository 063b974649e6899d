import ModbusRtu.Port.BurstPort
import ModbusRtu.Port.BusTransfer
import ModbusRtu.Port.Resynchronisation

/-!
# A file over the serial port

All layers together: the sender splits a file into records, each record is a
request in a frame, the bytes of the frames come as bursts on the UART, the DMA
stores them in its ring, read_serial takes them out, a poll hears the frame and
serves the request, and the callback of port.c hands the record to the receiver.

Whatever noise has been on the line before, whatever state the receiver was in,
and whatever other transactions lie between the requests of the sender: if a
silence precedes them and the bytes come in time, the receiver ends with the
file in its buffer and has handed it on once.
-/

namespace ModbusRtu
namespace Port

open Kernel

section Arrival

variable {γ : Type}
variable {file : List UInt8}

/-- On the bus the requests of a sender are echoed, and the file is taken. -/
theorem leads_to_file
    (pin : OutputPin γ) (unit : UInt8) (s : Server (PortDevice γ))
    {pause : Int32} (hpause : 0 < pause) (hbt : s.byteTimeoutMs < pause)
    (hrt : pause ≤ s.readTimeoutMs)
    (heven : file.length % 2 = 0)
    (hfits : file.length ≤ modbusFileSendDataRecvBufSize)
    {ts : List Transaction}
    (hvalid : ∀ t ∈ ts, t.Valid (portConf pin unit))
    (hfile : ts.filterMap Transaction.fileRequest =
      (preparedList file).map chunkRequest)
    (sent : List (List UInt8)) :
    Leads (answering (respond pause)) (fun _ => False)
      (times (nmbsServerPoll (portConf pin unit)) ts.length) s
      ⟨[], ts.flatMap (Transaction.bursts nmbsCrcCalc), sent⟩
      fun errs s' line => errs = ts.map Transaction.status ∧
        line.current = [] ∧ line.coming = [] ∧
        (∀ target data, target ≠ nmbsBroadcastAddress →
          Transaction.ours target (.writeRecords data) ∈ ts →
          requestFrame nmbsCrcCalc (target, .writeRecords data) ∈
            line.sent) ∧
        TookFile file s.device.receiver s'.device.receiver := by
  refine (leads_with_device pin unit s hpause hbt hrt hvalid
    (single_of_fileRequests heven hfits hfile) sent).imp ?_
  rintro errs s' line ⟨herrs, hcurrent, hcoming, hsent, hview⟩
  refine ⟨herrs, hcurrent, hcoming, fun target data htarget ht => ?_,
    receiver_of_file heven hfits hfile hview⟩
  rw [hsent]
  exact List.mem_append_right _
    (echoed_of_fileRequests heven hfits hfile _ htarget ht)

/--
A file over the serial port, behind any noise and a silence: in every timely
interleaving of the bytes, the DMA and the reads, after a bounded number of
polls for the noise and one poll for each transaction, every request of the
sender has been echoed, nothing is left unread, and the receiver that the
exchanges of the noise have left has taken the file. The server goes wrong at a
hazard in the noise only.
-/
theorem file_arrives_on_serial_port
    (pin : OutputPin γ) {unit : UInt8} {pause : Int32}
    (hbt : 100 < pause) (hrt : pause ≤ 200) (d : PortDevice γ)
    (noise : List (List UInt8))
    (heven : file.length % 2 = 0)
    (hfits : file.length ≤ modbusFileSendDataRecvBufSize)
    {ts : List Transaction}
    (hvalid : ∀ t ∈ ts, t.Valid (portConf pin unit))
    (hfile : ts.filterMap Transaction.fileRequest =
      (preparedList file).map chunkRequest)
    {stream : ByteMem} {p : BurstPort} (hbursting : Bursting stream p)
    (hread : readBefore stream p.port.events = p.ending)
    (hcoming : p.coming =
      noise ++ [] :: ts.flatMap (Transaction.bursts nmbsCrcCalc)) :
    ∃ n ≤ noise.flatten.length + noise.length + 1,
      Leads (burstLine stream pause)
        (fun _ => NoiseHazard (portConf pin unit) noise.flatten d ⟨[], []⟩)
        (times (nmbsServerPoll (portConf pin unit)) (n + ts.length))
        (portServer d) p
        fun errs s' p' => errs.drop n = ts.map Transaction.status ∧
          readBefore stream p'.port.events = p'.ending ∧ p'.coming = [] ∧
          (∀ target data, target ≠ nmbsBroadcastAddress →
            Transaction.ours target (.writeRecords data) ∈ ts →
            requestFrame nmbsCrcCalc (target, .writeRecords data) ∈
              p'.port.sent) ∧
          ∃ xs d' line,
            Outcome (portConf pin unit) xs d ⟨[], []⟩ d' line ∧
            line.heard = noise.flatten ∧
            TookFile file d'.receiver s'.device.receiver := by
  have hpause : 0 < pause := Int32.lt_trans (by decide) hbt
  have hnext : ∀ xs s' line, s'.byteTimeoutMs = 100 →
      s'.readTimeoutMs = 200 →
      Outcome (portConf pin unit) xs d ⟨[], []⟩ s'.device line →
      line.heard = noise.flatten →
      Leads (answering (respond pause)) (fun _ => False)
        (times (nmbsServerPoll (portConf pin unit)) ts.length) s'
        ⟨[], ts.flatMap (Transaction.bursts nmbsCrcCalc),
          p.port.sent ++ line.sent⟩
        fun errs s'' c => errs = ts.map Transaction.status ∧
          c.current = [] ∧ c.coming = [] ∧
          (∀ target data, target ≠ nmbsBroadcastAddress →
            Transaction.ours target (.writeRecords data) ∈ ts →
            requestFrame nmbsCrcCalc (target, .writeRecords data) ∈
              c.sent) ∧
          ∃ xs d' line,
            Outcome (portConf pin unit) xs d ⟨[], []⟩ d' line ∧
            line.heard = noise.flatten ∧
            TookFile file d'.receiver s''.device.receiver := by
    intro xs s' line hbt' hrt' houtcome hheard
    refine (leads_to_file pin unit s' hpause (by rw [hbt']; exact hbt)
      (by rw [hrt']; exact hrt) heven hfits hvalid hfile _).imp ?_
    rintro errs s'' c ⟨herrs, hcurrent, hdone, hechoed, htook⟩
    exact ⟨herrs, hcurrent, hdone, hechoed, xs, s'.device, line, houtcome,
      hheard, htook⟩
  obtain ⟨n, hn, hpolls⟩ := @exists_polls_then _ (portConf pin unit) pause
    (ts.flatMap (Transaction.bursts nmbsCrcCalc)) p.port.sent rfl
    (portServer d) hpause hbt hrt noise ts.length False _ hnext
  refine ⟨n, hn, ?_⟩
  rw [← hcoming, ← BurstPort.line_of_read hread] at hpolls
  refine (leads_on_port hbursting hpolls).mono ?_ fun _ hwrong =>
    hwrong.resolve_right id
  rintro errs s' p' ⟨hend, herrs, hcurrent, hdone, hechoed, htook⟩
  exact ⟨herrs, hend.read_of_current hcurrent, hdone, hechoed, htook⟩

/-- The frames of a sender fit in the ring. -/
theorem chunk_frames_fit
    (heven : file.length % 2 = 0)
    (hfits : file.length ≤ modbusFileSendDataRecvBufSize)
    {chunk : Nat × List UInt8} (hchunk : chunk ∈ preparedList file)
    (unit : UInt8) :
    (requestFrame nmbsCrcCalc (unit, chunkRequest chunk)).length <
      uart2RxDmaBufSize := by
  obtain ⟨-, -, hsmall⟩ := mem_preparedList heven hfits hchunk
  have hentry : (chunkEntry chunk).bytes.length =
      7 + 2 * (chunk.2.length / 2) := by
    rw [FileEntry.length_bytes, chunkEntry, length_wireHalfwords]
  rw [mobdusPayloadChunkSize] at hsmall
  simp only [requestFrame, withCheck, Request.body, chunkRequest,
    Request.fields, List.length_append, List.length_cons, hentry,
    length_wireBytes, uart2RxDmaBufSize]
  omega

/-- The requests of a sender for two letters. -/
def letterRequests : List Transaction :=
  (preparedList [0x41, 0x42]).map fun chunk => .ours 1 (chunkRequest chunk)

/-- A stray byte and a silence before them. -/
def letterBursts : List (List UInt8) :=
  [[7]] ++ [] :: letterRequests.flatMap (Transaction.bursts nmbsCrcCalc)

/-- There is a run in which two letters arrive behind a stray byte. -/
theorem file_arrives_on_serial_port_letters :
    ∃ n ≤ 3, ∃ errs s' p',
      Reaches (burstLine (streamOf letterBursts.flatten) 150)
        (times (nmbsServerPoll (portConf OutputPin.level 1))
          (n + letterRequests.length)
          (portServer ⟨darkBoard, FileReceiver.initial⟩))
        (BurstPort.initial letterBursts) (some (errs, s')) p' ∧
      ∃ before, TookFile [0x41, 0x42] before s'.device.receiver := by
  have hfits : [(0x41 : UInt8), 0x42].length ≤
      modbusFileSendDataRecvBufSize := by
    decide
  have hvalid : ∀ t ∈ letterRequests,
      t.Valid (portConf OutputPin.level 1) := by
    intro t ht
    rcases List.mem_map.mp ht with ⟨chunk, hchunk, rfl⟩
    exact valid_of_chunk OutputPin.level 1 rfl hfits hchunk
  have hshort : ∀ burst ∈ letterBursts, burst.length < uart2RxDmaBufSize := by
    intro burst hburst
    rcases List.mem_append.mp hburst with hstray | hburst
    · rw [List.mem_singleton.mp hstray]
      decide
    · rcases List.mem_cons.mp hburst with rfl | hburst
      · decide
      · rcases List.mem_flatMap.mp hburst with ⟨t, ht, hburst⟩
        rcases List.mem_map.mp ht with ⟨chunk, hchunk, rfl⟩
        rw [List.mem_singleton.mp hburst]
        exact chunk_frames_fit rfl hfits hchunk 1
  have hports := shortBursts_initial hshort
  obtain ⟨n, hn, hpolls⟩ := @file_arrives_on_serial_port _ _
    OutputPin.level 1 150 (by decide) (by decide)
    ⟨darkBoard, FileReceiver.initial⟩ [[7]] rfl hfits _ hvalid rfl _ _
    hports.bursting rfl rfl
  have hbyte : (0 : Int32) ≤ 100 := by
    decide
  have hread : (0 : Int32) ≤ 200 := by
    decide
  obtain ⟨r, p', hreach⟩ := @conversation_happens _
    (portConf OutputPin.level 1) _ 150 rfl
    (portServer ⟨darkBoard, FileReceiver.initial⟩) hbyte hread
    (n + letterRequests.length) _ hports
  have hend := hpolls.reached hreach
  cases r with
  | none =>
      exact absurd hend (not_noiseHazard (by decide))
  | some r =>
      obtain ⟨-, -, -, -, xs, d', line, -, -, htook⟩ := hend
      exact ⟨n, hn, r.1, r.2, p', hreach, d'.receiver, htook⟩

end Arrival

end Port
end ModbusRtu
