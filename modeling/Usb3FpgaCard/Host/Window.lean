import Mathlib.Algebra.Group.Nat.Defs
import Mathlib.Data.Fin.VecNotation
import Mathlib.Data.Nat.Notation
import Mathlib.Logic.Function.Basic

/-!
# The host application: `app/mainwindow.cpp`

`reverse`, `populate_header`, `send_bulk` and `send_and_read_bulk`.  What the endpoint objects of
CyAPI do is not determined here: `Outcomes` gives the outcome of every call, by its number, and the
functions are run against it.  `Run` is the state of one call of `send_and_read_bulk`, its local
variables and what the endpoints know, and `Run.log` is everything it has called so far.

* `unsigned int` is `BitVec 32`, so that `buffer_counter - read_offset` wraps as it does there.
* The arrays `inBuf`, `inOvLap` and `inContext` are given by indices: buffer `i` is `inBuf[i]` and
  slot `i` is `inOvLap[i]` with its event.  What `new` leaves in them is arbitrary.
* The endpoints are in direct mode, CyAPI's default: what a transfer delivers goes into the buffer
  that `BeginDataXfer` was given, when it is finished.
* `r_packet_length`, which `FinishDataXfer` sets, is never read, and the messages are left out.
-/

set_option autoImplicit false

namespace Usb3FpgaCard
namespace Host

/-! ## Constants -/

/-- `PACKET_SIZE`. -/
def packetSize : ℕ := 16 * 1024

/-- `RX_PACKETS_PER_TRANSFER`. -/
def rxPacketsPerTransfer : ℕ := 8

/-- `TX_PACKETS_PER_TRANSFER`. -/
def txPacketsPerTransfer : ℕ := 1

/-- `QUEUE_SIZE`. -/
def queueSize : ℕ := 2

/-- `RX_TRANSFER_SIZE`. -/
def rxTransferSize : ℕ := packetSize * rxPacketsPerTransfer

/-- `TX_TRANSFER_SIZE`. -/
def txTransferSize : ℕ := packetSize * txPacketsPerTransfer

/-! ## Samples -/

/-- `MainWindow::reverse`.  A received byte is one sample of the eight channels, channel 7 in bit 0
and channel 0 in bit 7; turned around, channel `i` is bit `i`.  Nothing is lost where the source
computes with `int`: every intermediate value fits in a byte. -/
def reverse (b : BitVec 8) : BitVec 8 :=
  let b := (b &&& 0xF0) >>> 4 ||| (b &&& 0x0F) <<< 4
  let b := (b &&& 0xCC) >>> 2 ||| (b &&& 0x33) <<< 2
  (b &&& 0xAA) >>> 1 ||| (b &&& 0x55) <<< 1

/-- **Bit `i` of the reversed byte is bit `7 - i`.** -/
theorem getLsbD_reverse (b : BitVec 8) (i : Fin 8) :
    (reverse b).getLsbD i.val = b.getLsbD (7 - i.val) := by
  revert b i
  decide +kernel

/-! ## Commands -/

/-- The widgets a command is made from. -/
structure Ui where
  /-- The current index of each combo box, which has 13 items. -/
  (ch0 ch1 ch2 ch3 ch4 ch5 ch6 ch7 : Fin 13)
  /-- Which buttons are checked. -/
  (gpio0 gpio1 gpio2 gpio3 : Bool)

/-- The combo boxes by channel. -/
def Ui.ch (ui : Ui) : Fin 8 → Fin 13 :=
  ![ui.ch0, ui.ch1, ui.ch2, ui.ch3, ui.ch4, ui.ch5, ui.ch6, ui.ch7]

/-- The buttons by number. -/
def Ui.gpio (ui : Ui) : Fin 4 → Bool := ![ui.gpio0, ui.gpio1, ui.gpio2, ui.gpio3]

/-- `MainWindow::populate_header`. -/
def populateHeader (ui : Ui) (buf : List (BitVec 8)) (numberOfPackets : BitVec 32) :
    List (BitVec 8) :=
  let currentIndex (c : Fin 13) : BitVec 8 := BitVec.ofNat 8 c.val
  let isChecked (b : Bool) : BitVec 8 := BitVec.ofNat 8 b.toNat
  buf ++
    ([0xBA, 0xB0, 0xFE, 0xCA,
      ((numberOfPackets >>> 0) &&& 0xFF).setWidth 8,
      ((numberOfPackets >>> 8) &&& 0xFF).setWidth 8,
      ((numberOfPackets >>> 16) &&& 0xFF).setWidth 8,
      ((numberOfPackets >>> 24) &&& 0xFF).setWidth 8,
      currentIndex ui.ch0, currentIndex ui.ch1, currentIndex ui.ch2, currentIndex ui.ch3,
      currentIndex ui.ch4, currentIndex ui.ch5, currentIndex ui.ch6, currentIndex ui.ch7,
      isChecked ui.gpio3 <<< 0 ||| isChecked ui.gpio2 <<< 1 ||| isChecked ui.gpio1 <<< 2 |||
        isChecked ui.gpio0 <<< 3,
      0, 0, 0] : List (BitVec 8))

/-- `outBuf`, the transfer `MainWindow::send_bulk` makes of `tx_buf`: filled up with zeros. -/
def outBuf (txBuf : List (BitVec 8)) : List (BitVec 8) :=
  (List.range txTransferSize).map fun i ↦ txBuf.getD i 0

/-! ## Calls and their outcomes -/

/-- What a transfer is submitted and finished with. -/
@[ext] structure Resources where
  /-- The receive buffer, `inBuf[buffer]`. -/
  buffer : ℕ
  /-- The `OVERLAPPED` and its event, `inOvLap[slot]`. -/
  slot : ℕ
  /-- The context `BeginDataXfer` has returned. -/
  context : ℕ
  deriving DecidableEq

/-- The calls `send_and_read_bulk` makes. -/
inductive Call where
  /-- `inBuf[i] = new UCHAR[RX_TRANSFER_SIZE]`. -/
  | newBuffer (i : ℕ)
  /-- `inOvLap[slot].hEvent = CreateEvent(…)`. -/
  | createEvent (slot : ℕ)
  /-- `BulkInEpt->BeginDataXfer`, and whether it left `NtStatus` and `UsbdStatus` zero. -/
  | beginDataXfer (r : Resources) (accepted : Bool)
  /-- `BulkOutEpt->XferData`. -/
  | xferData (outBuf : List (BitVec 8))
  /-- `BulkInEpt->WaitForXfer(&inOvLap[slot], 1500)`. -/
  | waitForXfer (slot : ℕ)
  /-- `BulkInEpt->Abort`. -/
  | abort
  /-- `WaitForSingleObject(inOvLap[slot].hEvent, 2000)`. -/
  | waitForSingleObject (slot : ℕ)
  /-- `BulkInEpt->FinishDataXfer`. -/
  | finishDataXfer (r : Resources)
  /-- `CloseHandle(inOvLap[slot].hEvent)`. -/
  | closeHandle (slot : ℕ)
  /-- `delete [] inBuf[i]`. -/
  | deleteBuffer (i : ℕ)
  /-- `delete [] inOvLap`. -/
  | deleteOvLap
  /-- `delete [] inBuf`. -/
  | deleteInBuf
  /-- `delete [] inContext`. -/
  | deleteInContext

/-- The outcome of each call, by its number among the calls of its kind, and what memory holds
before it is written. -/
structure Outcomes where
  /-- `BeginDataXfer` leaves `NtStatus` and `UsbdStatus` zero. -/
  accepted : ℕ → Bool
  /-- The context `BeginDataXfer` returns. -/
  context : ℕ → ℕ
  /-- `WaitForXfer` returns true. -/
  waited : ℕ → Bool
  /-- `LastError` is `ERROR_IO_PENDING` after a wait that failed. -/
  ioPending : ℕ → Bool
  /-- `FinishDataXfer` returns true. -/
  finished : ℕ → Bool
  /-- What the transfer that is finished has delivered. -/
  data : ℕ → List (BitVec 8)
  /-- It fits in the buffer. -/
  data_le : ∀ k, (data k).length ≤ rxTransferSize
  /-- `XferData` returns true. -/
  sent : Bool
  /-- The bytes in a new buffer. -/
  newBuffer : ℕ → ℕ → BitVec 8
  /-- The entries of the new array `inContext`. -/
  newContext : ℕ → ℕ

/-- One call of `send_and_read_bulk`. -/
structure Run where
  /-- `status`. -/
  status : Bool
  /-- `buffer_counter`. -/
  bufferCounter : BitVec 32
  /-- `q_ctr`. -/
  qCtr : BitVec 32
  /-- `inContext`. -/
  inContext : ℕ → ℕ
  /-- The receive buffers, byte by byte. -/
  inBuf : ℕ → ℕ → BitVec 8
  /-- The buffer of the transfer that is pending on each slot. -/
  pending : ℕ → Option ℕ
  /-- The number of calls of `BeginDataXfer`. -/
  begins : ℕ
  /-- The number of calls of `WaitForXfer`. -/
  waits : ℕ
  /-- The number of calls of `FinishDataXfer`. -/
  finishes : ℕ
  /-- All calls so far. -/
  log : List Call

namespace Run

variable (s : Run) (o : Outcomes)

/-- Calls with no outcome. -/
def call (calls : List Call) : Run := { s with log := s.log ++ calls }

/-- `inContext[slot] = BulkInEpt->BeginDataXfer(inBuf[buffer], packet_length, &inOvLap[slot])`, and
the check of its outcome. -/
def beginDataXfer (buffer slot : ℕ) : Run :=
  { s with
    status := s.status && o.accepted s.begins
    inContext := Function.update s.inContext slot (o.context s.begins)
    pending := Function.update s.pending slot (if o.accepted s.begins then some buffer else none)
    begins := s.begins + 1
    log := s.log ++ [.beginDataXfer
      { buffer := buffer, slot := slot, context := o.context s.begins } (o.accepted s.begins)] }

/-- `BulkInEpt->WaitForXfer(&inOvLap[slot], 1500)`, and what is done when it fails. -/
def waitForXfer (slot : ℕ) : Run :=
  let next := { s with waits := s.waits + 1, log := s.log ++ [.waitForXfer slot] }
  if o.waited s.waits then next
  else if o.ioPending s.waits then
    { next with status := false, log := next.log ++ [.abort, .waitForSingleObject slot] }
  else { next with status := false, log := next.log ++ [.abort] }

/-- The receive buffers when data is delivered on a slot. -/
def deliver (slot : ℕ) (data : List (BitVec 8)) : ℕ → ℕ → BitVec 8 :=
  match s.pending slot with
  | some b => Function.update s.inBuf b fun j ↦ data.getD j (s.inBuf b j)
  | none => s.inBuf

/-- `BulkInEpt->FinishDataXfer(inBuf[buffer], r_packet_length, &inOvLap[slot], inContext[slot])`,
and the check of its outcome. -/
def finishDataXfer (buffer slot : ℕ) : Run :=
  { s with
    status := s.status && o.finished s.finishes
    inBuf := if o.finished s.finishes then s.deliver slot (o.data s.finishes) else s.inBuf
    finishes := s.finishes + 1
    log := s.log ++ [.finishDataXfer
      { buffer := buffer, slot := slot, context := s.inContext slot }] }

/-- The submission of a buffer that is left, on the slot just finished. -/
def resubmit (transferCount : BitVec 32) : Run :=
  if s.bufferCounter < transferCount then
    { s.beginDataXfer o s.bufferCounter.toNat s.qCtr.toNat with
      bufferCounter := s.bufferCounter + 1 }
  else s

/-- `q_ctr` goes to the next slot. -/
def nextSlot : Run :=
  { s with qCtr := if s.qCtr + 1 = BitVec.ofNat 32 queueSize then 0 else s.qCtr + 1 }

/-- The body of the transfer loop. -/
def transfer (transferCount readOffset : BitVec 32) : Run :=
  let waited := s.waitForXfer o s.qCtr.toNat
  let finished := waited.finishDataXfer o (waited.bufferCounter - readOffset).toNat
    waited.qCtr.toNat
  (finished.resubmit o transferCount).nextSlot

/-- `while (transfer_ctr)`, for `transferCtr` more transfers. -/
def transferLoop (transferCount readOffset : BitVec 32) : ℕ → Run → Run
  | 0, s => s
  | transferCtr + 1, s =>
    transferLoop transferCount readOffset transferCtr (s.transfer o transferCount readOffset)

/-- One of the initial submissions. -/
def submit (i : ℕ) : Run :=
  let submitted := (s.call [.createEvent i]).beginDataXfer o i i
  { submitted with bufferCounter := submitted.bufferCounter + 1 }

/-- The start of a call: `transfer_count` new receive buffers. -/
def start (transferCount : BitVec 32) : Run where
  status := true
  bufferCounter := 0
  qCtr := 0
  inContext := o.newContext
  inBuf := o.newBuffer
  pending := fun _ ↦ none
  begins := 0
  waits := 0
  finishes := 0
  log := (List.range transferCount.toNat).map Call.newBuffer

/-- The number of initial submissions, `i < QUEUE_SIZE && i < transfer_count`. -/
def queued (transferCount : BitVec 32) : ℕ := min queueSize transferCount.toNat

/-- The initial submissions. -/
def submitAll (transferCount : BitVec 32) : Run :=
  (List.range (queued transferCount)).foldl (fun s i ↦ s.submit o i) s

/-- What is freed before the return. -/
def cleanup (transferCount : BitVec 32) : Run :=
  s.call ((List.range (queued transferCount)).map Call.closeHandle ++
    (List.range transferCount.toNat).map Call.deleteBuffer ++
      [.deleteOvLap, .deleteInBuf, .deleteInContext])

/-- What is appended to `rx_buf`: all bytes of all buffers. -/
def received (transferCount : BitVec 32) : List (BitVec 8) :=
  (List.range transferCount.toNat).flatMap fun i ↦ (List.range rxTransferSize).map (s.inBuf i)

end Run

/-! ## The functions -/

/-- The guard of `send_bulk`. -/
def canSend (communicationEnabled : Bool) (txBuf : List (BitVec 8)) : Bool :=
  communicationEnabled && decide (txBuf.length ≤ txTransferSize)

/-- `MainWindow::send_bulk`: its result and its call of the endpoint. -/
def sendBulk (communicationEnabled : Bool) (o : Outcomes) (txBuf : List (BitVec 8)) :
    Bool × List Call :=
  if canSend communicationEnabled txBuf then (o.sent, [.xferData (outBuf txBuf)])
  else (false, [])

/-- The result of `send_and_read_bulk`, what it leaves in `rx_buf`, and its calls. -/
structure Result where
  /-- The result. -/
  value : Bool
  /-- `rx_buf` after the call. -/
  rxBuf : List (BitVec 8)
  /-- The calls it has made. -/
  log : List Call

/-- The state of `send_and_read_bulk` after the transfer loop. -/
def transferred (communicationEnabled : Bool) (o : Outcomes) (txBuf : List (BitVec 8))
    (transferCount : BitVec 32) : Run :=
  let submitted := (Run.start o transferCount).submitAll o transferCount
  -- the result of `send_bulk` is dropped
  let requested := submitted.call (sendBulk communicationEnabled o txBuf).2
  if requested.status then
    Run.transferLoop o transferCount requested.bufferCounter transferCount.toNat requested
  else requested

/-- `MainWindow::send_and_read_bulk`. -/
def sendAndReadBulk (communicationEnabled : Bool) (o : Outcomes) (txBuf rxBuf : List (BitVec 8))
    (transferCount : BitVec 32) : Result :=
  if communicationEnabled then
    let done := (transferred communicationEnabled o txBuf transferCount).call [.abort]
    { value := done.status
      rxBuf := done.received transferCount
      log := (done.cleanup transferCount).log }
  else { value := false, rxBuf := rxBuf, log := [] }

end Host
end Usb3FpgaCard
