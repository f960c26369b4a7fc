import Mathlib.Data.Nat.Notation
import Usb3FpgaCard.Clocked.Machine

/-!
# The console port: `fpga/ip/nios/synthesis/submodules/nios_jtag_uart.v`

The module `nios_jtag_uart` as a clocked machine: a FIFO in each direction between the Avalon slave,
through which the Nios II reads and writes, and the JTAG link to the host.  Each `always` block is
read as in `Fpga.Main`, with the branches between `synthesis translate_off` and `translate_on` left
out, and `alt_jtag_atlantic` is what drives `Jtag`.

* An access takes two cycles: `av_waitrequest` is high in the first, and low in the second.  A byte
  written to the data register is put into the FIFO in the second, from the pins.
* `scfifo` has its checks switched off: writing to it when it is full, or reading it when it is
  empty, is not defined.  `Scfifo` is a list without a bound, and that it never holds more than its
  64 words is shown (`Sound.le`).
* `av_irq` is left out: nothing is registered for the interrupt.
-/

set_option autoImplicit false

namespace Usb3FpgaCard
namespace Nios

open Clocked

/-! ## Pins -/

/-- The Avalon slave's inputs. -/
structure Avalon where
  /-- `av_address`: 0 for the data register, 1 for the control register. -/
  address : Bool
  /-- `av_chipselect`. -/
  chipselect : Bool
  /-- `av_read_n`. -/
  readN : Bool
  /-- `av_write_n`. -/
  writeN : Bool
  /-- `av_writedata`. -/
  writedata : BitVec 32

/-- What `alt_jtag_atlantic` drives. -/
structure Jtag where
  /-- `r_ena`: the host takes a byte. -/
  rEna : Bool
  /-- `t_ena`: it gives one. -/
  tEna : Bool
  /-- `t_dat`. -/
  tDat : BitVec 8
  /-- `t_pause`. -/
  tPause : Bool

/-! ## The FIFOs -/

/-- `scfifo` with `lpm_numwords` = 64, `lpm_showahead` = `OFF`. -/
structure Scfifo where
  /-- The words, the oldest first. -/
  items : List (BitVec 8)
  /-- `q`. -/
  q : BitVec 8

namespace Scfifo

variable (f : Scfifo)

/-- `lpm_numwords`. -/
def numwords : ℕ := 64

/-- `full`. -/
def full : Bool := f.items.length == numwords

/-- `empty`. -/
def empty : Bool := f.items.isEmpty

/-- `usedw`, which has `lpm_widthu` = 6 bits. -/
def usedw : BitVec 6 := BitVec.ofNat 6 f.items.length

/-- A clock edge. -/
def edge (wrreq : Bool) (data : BitVec 8) (rdreq : Bool) : Scfifo :=
  { items := (if rdreq then f.items.tail else f.items) ++ if wrreq then [data] else []
    q := if rdreq then f.items.headD f.q else f.q }

end Scfifo

/-! ## The module -/

/-- The registers of `nios_jtag_uart`. -/
structure Uart where
  /-- `the_nios_jtag_uart_scfifo_w`, to the host. -/
  wfifo : Scfifo
  /-- `the_nios_jtag_uart_scfifo_r`, from the host. -/
  rfifo : Scfifo
  /-- `pause_irq`. -/
  pauseIrq : Bool
  /-- `r_val`: the byte read from `wfifo` in the last cycle is valid. -/
  rVal : Bool
  /-- `t_dav`. -/
  tDav : Bool
  /-- `fifo_AE`. -/
  fifoAe : Bool
  /-- `fifo_AF`. -/
  fifoAf : Bool
  /-- `fifo_wr`. -/
  fifoWr : Bool
  /-- `rvalid`. -/
  rvalid : Bool
  /-- `read_0`. -/
  read0 : Bool
  /-- `ien_AE`. -/
  ienAe : Bool
  /-- `ien_AF`. -/
  ienAf : Bool
  /-- `ac`. -/
  ac : Bool
  /-- `woverflow`. -/
  woverflow : Bool
  /-- `av_waitrequest`. -/
  avWaitrequest : Bool
  /-- `readyfordata`. -/
  readyfordata : Bool
  /-- `dataavailable`. -/
  dataavailable : Bool

namespace Uart

variable (s : Uart)

/-- `{fifo_FF,wfifo_used}`. -/
def wused : BitVec 7 := BitVec.ofBool s.wfifo.full ++ s.wfifo.usedw

/-- `{rfifo_full,rfifo_used}`. -/
def rused : BitVec 7 := BitVec.ofBool s.rfifo.full ++ s.rfifo.usedw

/-- `ipen_AE`. -/
def ipenAe : Bool := s.ienAe && s.fifoAe

/-- `ipen_AF`. -/
def ipenAf : Bool := s.ienAf && (s.pauseIrq || s.fifoAf)

/-- The bits 15 to 8 of `av_readdata`. -/
def status : BitVec 8 :=
  BitVec.ofBool s.rvalid ++ BitVec.ofBool s.woverflow ++ BitVec.ofBool (!s.wfifo.full) ++
    BitVec.ofBool (!s.rfifo.empty) ++ 0#1 ++ BitVec.ofBool s.ac ++ BitVec.ofBool s.ipenAe ++
    BitVec.ofBool s.ipenAf

/-- `av_readdata`. -/
def avReaddata : BitVec 32 :=
  if s.read0 then (0#9 ++ s.rused) ++ (s.status ++ s.rfifo.q)
  else (0#9 ++ (0x40#7 - s.wused)) ++
    (s.status ++ (0#6 ++ BitVec.ofBool s.ienAe ++ BitVec.ofBool s.ienAf))

/-- The state while `rst_n` is low. -/
def reset : Uart :=
  { wfifo := { items := [], q := 0 }
    rfifo := { items := [], q := 0 }
    pauseIrq := false
    rVal := false
    tDav := true
    fifoAe := false
    fifoAf := false
    fifoWr := false
    rvalid := false
    read0 := false
    ienAe := false
    ienAf := false
    ac := false
    woverflow := false
    avWaitrequest := true
    readyfordata := false
    dataavailable := false }

/-- A clock edge. -/
def edge (av : Avalon) (j : Jtag) : Uart :=
  let activity := j.tPause || j.tEna
  let write := av.chipselect && !av.writeN && s.avWaitrequest
  let read := av.chipselect && !av.readN && s.avWaitrequest
  { wfifo := s.wfifo.edge s.fifoWr (av.writedata.setWidth 8) (j.rEna && !s.wfifo.empty)
    rfifo := s.rfifo.edge (j.tEna && !s.rfifo.full) j.tDat
      (read && !av.address && !s.rfifo.empty)
    pauseIrq := if j.tPause && !s.rfifo.empty then true else if s.read0 then false else s.pauseIrq
    rVal := j.rEna && !s.wfifo.empty
    tDav := !s.rfifo.full
    fifoAe := decide (s.wused.setWidth 32 ≤ 8)
    fifoAf := decide (0x40 - s.rused.setWidth 32 ≤ 8)
    fifoWr := write && !av.address && !s.wfifo.full
    rvalid := if read && !av.address then !s.rfifo.empty else s.rvalid
    read0 := read && !av.address
    ienAe := if write && av.address then av.writedata.getLsbD 1 else s.ienAe
    ienAf := if write && av.address then av.writedata.getLsbD 0 else s.ienAf
    ac := if write && av.address && av.writedata.getLsbD 10 && !activity then false
      else activity || s.ac
    woverflow := if write && !av.address then s.wfifo.full else s.woverflow
    avWaitrequest := !(av.chipselect && (!av.writeN || !av.readN) && s.avWaitrequest)
    readyfordata := !s.wfifo.full
    dataavailable := !s.rfifo.empty }

end Uart

/-! ## What the driver reads -/

/-- `ALTERA_AVALON_JTAG_UART_CONTROL_WSPACE_MSK`. -/
def controlWspaceMsk : BitVec 32 := 0xFFFF0000#32

/-- `7'h40 - {fifo_FF,wfifo_used}` for all that the FIFO can hold. -/
theorem space_eq_zero_iff : ∀ n : Fin 65,
    0#9 ++ (0x40#7 - (BitVec.ofBool (n.val == 64) ++ BitVec.ofNat 6 n.val)) = 0#16 ↔
      n.val = 64 := by
  decide

/-- **The control register shows whether there is space**, as long as the FIFO holds no more than
it can. -/
theorem and_controlWspaceMsk {s : Uart} (h : s.read0 = false)
    (hle : s.wfifo.items.length ≤ Scfifo.numwords) :
    s.avReaddata &&& controlWspaceMsk ≠ 0 ↔ s.wfifo.items.length < Scfifo.numwords := by
  have hmask : controlWspaceMsk = BitVec.allOnes 16 ++ 0#16 := by decide
  have hspace : 0#9 ++ (0x40#7 - s.wused) = 0#16 ↔ s.wfifo.items.length = Scfifo.numwords :=
    space_eq_zero_iff ⟨s.wfifo.items.length, Nat.lt_succ_of_le hle⟩
  rw [Nat.lt_iff_le_and_ne, and_iff_right hle]
  refine not_congr (Iff.trans ?_ hspace)
  rw [Uart.avReaddata, h, if_neg Bool.false_ne_true, hmask, BitVec.and_append, BitVec.and_allOnes,
    BitVec.and_zero]
  refine ⟨fun heq ↦ ?_, fun heq ↦ ?_⟩
  · rw [← BitVec.extractLsb'_append_eq_left (a := 0#9 ++ (0x40#7 - s.wused)) (b := 0#16), heq]
    rfl
  · rw [heq]
    rfl

end Nios
end Usb3FpgaCard
