import Usb3FpgaCard.Clocked.Machine

/-!
# The FPGA: `fpga/src/main.v`

The module `main` as a clocked machine.  Every `always` block is one function from the registers
before a clock edge to the value its registers take, under the source's name for what it drives;
`Regs.clkPll` puts the blocks clocked by `clk_pll` together and `FastRegs.clkPllx4` those clocked
by `clk_pllx4`.

* A one-bit signal is a `Bool`, `true` for 1, and keeps its polarity: `slrd`, `slwr`, `sloe` and
  the delayed `SLRD_d1_`, `SLWR_1d_`, … are active low, as the trailing underscore says there.
* A vector is a `BitVec` of the declared width, so the counters wrap as they do in the circuit.
* The PLL gives four `clk_pllx4` edges in each `clk_pll` period, the fourth together with the
  `clk_pll` edge that ends the period (`ip/pll.v`: dividers 1 and multipliers 1 and 4, no phase
  shift).  Registers clocked by coinciding edges see each other's values from before the edge.
* `reset_` is the PLL's `locked` output.  `fpga.reset` is what the asynchronous branches load, and
  cycle 0 is the first with `reset_` high.
* `SLCS` and `PKEND` are constants, and the Nios II and the probe half of `vio` only look on;
  `all_ctr_reset`, the other half of `vio`, is an input.
-/

set_option autoImplicit false

namespace Usb3FpgaCard
namespace Fpga

/-! ## Pins and registers -/

/-- What reaches the module from outside in one `clk_pll` cycle. -/
structure Pins where
  /-- `FLAGA`, the full flag. -/
  flaga : Bool
  /-- `FLAGB`, the partial full flag. -/
  flagb : Bool
  /-- `FLAGC`, the empty flag. -/
  flagc : Bool
  /-- `FLAGD`, the partial empty flag. -/
  flagd : Bool
  /-- What the other side puts on `DQ`. -/
  dq : BitVec 32
  /-- `PB` at each of the four `clk_pllx4` edges of the cycle. -/
  pb : Fin 4 → BitVec 4
  /-- `all_ctr_reset`, from the virtual I/O block. -/
  allCtrReset : Bool

/-- The states `sm_idle` = 0, …, `sm_write_wr_delay` = 9 of the "LoopBack state machine". -/
inductive SmState where
  | smIdle | smFlagcRcvd | smWaitFlagd | smRead | smReadRdAndOeDelay | smReadOeDelay
  | smWaitFlaga | smWaitFlagb | smWrite | smWriteWrDelay
  deriving DecidableEq, Repr

/-- The registers of the block "Parse packet": what a command sets. -/
@[ext] structure Config where
  /-- `packets_to_send`. -/
  packetsToSend : BitVec 32
  /-- `ch_src[7:0]`, the source selected for each channel. -/
  chSrc : Fin 8 → BitVec 8
  /-- `USER_LED`. -/
  userLed : BitVec 4

/-- The registers clocked by `clk_pll`. -/
structure Regs where
  /-- `current_sm_state`. -/
  currentSmState : SmState
  /-- `FLAGA_d`. -/
  flagaD : Bool
  /-- `FLAGB_d`. -/
  flagbD : Bool
  /-- `FLAGC_d`. -/
  flagcD : Bool
  /-- `FLAGD_d`. -/
  flagdD : Bool
  /-- `SLWR_1d_`, active low. -/
  slwr1d : Bool
  /-- `SLRD_d1_`, active low. -/
  slrdD1 : Bool
  /-- `SLRD_d2_`, active low. -/
  slrdD2 : Bool
  /-- `SLRD_d3_`, active low. -/
  slrdD3 : Bool
  /-- `SLRD_d4_`, active low. -/
  slrdD4 : Bool
  /-- `DQ_d`. -/
  dqD : BitVec 32
  /-- `gpif_address_d`. -/
  gpifAddressD : BitVec 2
  /-- `rd_oe_delay_cnt`. -/
  rdOeDelayCnt : BitVec 1
  /-- `oe_delay_cnt`. -/
  oeDelayCnt : BitVec 2
  /-- `write_delay_cnt`. -/
  writeDelayCnt : BitVec 32
  /-- `wait_ctr`. -/
  waitCtr : BitVec 32
  /-- `wait_ctr_gbl`. -/
  waitCtrGbl : BitVec 32
  /-- `update_ctr_flag`. -/
  updateCtrFlag : Bool
  /-- `tx_ctr`. -/
  txCtr : BitVec 16
  /-- `write_ctr`. -/
  writeCtr : BitVec 32
  /-- `packet_index`. -/
  packetIndex : BitVec 32
  /-- `valid_packet`. -/
  validPacket : Bool
  /-- `packets_to_send`, `ch_src` and `USER_LED`. -/
  config : Config
  /-- `data_out_1d`. -/
  dataOut1d : BitVec 32
  /-- `data_out_2d`. -/
  dataOut2d : BitVec 32

/-- The registers clocked by `clk_pllx4`. -/
structure FastRegs where
  /-- `PB_1d`. -/
  pb1d : BitVec 4
  /-- `PB_2d`. -/
  pb2d : BitVec 4
  /-- `data_gen`. -/
  dataGen : BitVec 8
  /-- `ch_data_d`. -/
  chDataD : BitVec 32

/-- Byte `k` of a 32-bit word, the least significant one first: `w[8*k+7:8*k]`. -/
def byteOf (w : BitVec 32) (k : ℕ) : BitVec 8 := w.extractLsb' (8 * k) 8

theorem getLsbD_byteOf (w : BitVec 32) {k j : ℕ} (hj : j < 8) :
    (byteOf w k).getLsbD j = w.getLsbD (8 * k + j) := by
  rw [byteOf, BitVec.getLsbD_extractLsb', decide_eq_true hj, Bool.true_and]

/-- A word is its four bytes. -/
theorem eq_of_byteOf_eq {x y : BitVec 32} (h : ∀ k, k < 4 → byteOf x k = byteOf y k) : x = y := by
  refine BitVec.eq_of_getLsbD_eq fun j hj ↦ ?_
  have hx := getLsbD_byteOf x (k := j / 8) (Nat.mod_lt j (by omega : 8 > 0))
  have hy := getLsbD_byteOf y (k := j / 8) (Nat.mod_lt j (by omega : 8 > 0))
  rw [Nat.div_add_mod] at hx hy
  rw [← hx, ← hy, h (j / 8) (by omega)]

namespace Regs

variable (r : Regs)

/-! ## Output control signals -/

/-- `SLRD_`. -/
def slrd : Bool :=
  if r.currentSmState = .smRead ∨ r.currentSmState = .smReadRdAndOeDelay then false else true

/-- `SLOE_`. -/
def sloe : Bool :=
  if r.currentSmState = .smRead ∨ r.currentSmState = .smReadRdAndOeDelay ∨
    r.currentSmState = .smReadOeDelay then false else true

/-- `SLWR_`, the strobe before the register that drives the pin `SLWR`. -/
def slwr : Bool := if r.currentSmState = .smWrite then false else true

/-- `DQ`: driven by the module itself while `SLWR_1d_` is low, by the other side otherwise. -/
def dq (i : Pins) : BitVec 32 := if r.slwr1d then i.dq else r.dataOut2d

/-- `gpif_address`. -/
def gpifAddress : BitVec 2 :=
  if r.currentSmState = .smFlagcRcvd ∨ r.currentSmState = .smWaitFlagd ∨
    r.currentSmState = .smRead ∨ r.currentSmState = .smReadRdAndOeDelay ∨
    r.currentSmState = .smReadOeDelay then 0b11
  else if r.writeDelayCnt.getLsbD 12 then 0b01 -- every burst of 4096 words changes the buffer
  else 0b00

/-! ## Delay counters -/

/-- `rd_oe_delay_cnt`. -/
def rdOeDelayCntNext : BitVec 1 :=
  if r.currentSmState = .smRead then 1
  else if r.currentSmState = .smReadRdAndOeDelay ∧ r.rdOeDelayCnt > 0 then r.rdOeDelayCnt - 1
  else r.rdOeDelayCnt

/-- `oe_delay_cnt`. -/
def oeDelayCntNext : BitVec 2 :=
  if r.currentSmState = .smReadRdAndOeDelay then 2
  else if r.currentSmState = .smReadOeDelay ∧ r.oeDelayCnt > 0 then r.oeDelayCnt - 1
  else r.oeDelayCnt

/-- `write_delay_cnt`, the "counter of transferred packets". -/
def writeDelayCntNext : BitVec 32 :=
  if r.currentSmState = .smWaitFlaga then (r.config.packetsToSend <<< 12) - 1
  else if r.currentSmState = .smWrite ∧ r.writeDelayCnt > 0 then r.writeDelayCnt - 1
  else r.writeDelayCnt

/-! ## Diagnostic counters -/

/-- The state machine waits for `FLAGA` or `FLAGB`. -/
def waiting : Prop := r.currentSmState = .smWaitFlagb ∨ r.currentSmState = .smWaitFlaga

instance : Decidable r.waiting := inferInstanceAs (Decidable (_ ∨ _))

/-- `wait_ctr`. -/
def waitCtrNext : BitVec 32 :=
  if r.currentSmState = .smIdle then 0 else if r.waiting then r.waitCtr + 1 else r.waitCtr

/-- `wait_ctr_gbl`. -/
def waitCtrGblNext (i : Pins) : BitVec 32 :=
  if i.allCtrReset then 0 else if r.waiting then r.waitCtrGbl + 1 else r.waitCtrGbl

/-- `update_ctr_flag`. -/
def updateCtrFlagNext : Bool := if r.waiting then false else true

/-- `tx_ctr`. -/
def txCtrNext (i : Pins) : BitVec 16 :=
  if i.allCtrReset then 0
  else if r.currentSmState = .smWriteWrDelay then r.txCtr + 1 else r.txCtr

/-- `write_ctr`. -/
def writeCtrNext (i : Pins) : BitVec 32 :=
  if i.allCtrReset then 0
  else if r.currentSmState = .smWrite then r.writeCtr + 1 else r.writeCtr

/-! ## The state machine -/

/-- `next_sm_state`. -/
def nextSmState : SmState :=
  match r.currentSmState with
  | .smIdle => if r.flagcD = true then .smFlagcRcvd else .smIdle
  | .smFlagcRcvd => .smWaitFlagd
  | .smWaitFlagd => if r.flagdD = true then .smRead else .smWaitFlagd
  | .smRead => if r.flagdD = false then .smReadRdAndOeDelay else .smRead
  | .smReadRdAndOeDelay => if r.rdOeDelayCnt = 0 then .smReadOeDelay else .smReadRdAndOeDelay
  | .smReadOeDelay =>
    if r.oeDelayCnt = 0 then
      if r.config.packetsToSend = 0 then .smIdle else .smWaitFlaga
    else .smReadOeDelay
  | .smWaitFlaga => if r.flagaD = true then .smWaitFlagb else .smWaitFlaga
  | .smWaitFlagb => if r.flagbD = true then .smWrite else .smWaitFlagb
  | .smWrite => if r.writeDelayCnt = 0 then .smWriteWrDelay else .smWrite
  | .smWriteWrDelay => .smIdle

/-! ## The command parser -/

/-- `read_ready`. -/
def readReady : Bool := r.slrdD3 == false

/-- `read_data`. -/
def readData : BitVec 32 := if r.slrdD3 = false then r.dqD else 0

/-- `packet_index`. -/
def packetIndexNext : BitVec 32 := if r.readReady then r.packetIndex + 1 else 0

/-- The word a command starts with. -/
def header : BitVec 32 := 0xCAFEB0BA

/-- `valid_packet`, set by "Check header". -/
def validPacketNext : Bool :=
  if !r.readReady then false
  else if r.readReady ∧ r.packetIndex = 0 ∧ r.readData = header then true
  else r.validPacket

end Regs

/-- The `case (packet_index)` of "Parse packet": what word number `packetIndex` of a command does
to the configuration. -/
def Config.load (c : Config) (packetIndex readData : BitVec 32) : Config :=
  if packetIndex = 1 then { c with packetsToSend := readData }
  else if packetIndex = 2 then
    { c with chSrc := fun k ↦ if k.val < 4 then byteOf readData k.val else c.chSrc k }
  else if packetIndex = 3 then
    { c with chSrc := fun k ↦ if k.val < 4 then c.chSrc k else byteOf readData (k.val - 4) }
  else if packetIndex = 4 then { c with userLed := ~~~(readData.extractLsb' 0 4) }
  else c

/-- The block "Parse packet". -/
def Regs.configNext (r : Regs) : Config :=
  if r.validPacket then r.config.load r.packetIndex r.readData else r.config

/-! ## Channel data, in the fast clock domain -/

namespace FastRegs

variable (f : FastRegs)

/-- `data_src = {PB_2d, 1'b0, data_gen}`. -/
def dataSrc : BitVec 13 := f.pb2d ++ (0#1 ++ f.dataGen)

/-- Bit `data_src[ch_src[i]]`, the current value of channel `i`.  A select beyond bit 12 is `x` in
Verilog and reads as 0 here. -/
def channel (chSrc : Fin 8 → BitVec 8) (i : Fin 8) : Bool := f.dataSrc.getLsbD (chSrc i).toNat

/-- `ch_data`: channel 7 is bit 0, …, channel 0 is bit 7 ("invert bits order to match app"). -/
def chData (chSrc : Fin 8 → BitVec 8) : BitVec 8 :=
  BitVec.ofBoolListLE [f.channel chSrc 7, f.channel chSrc 6, f.channel chSrc 5, f.channel chSrc 4,
    f.channel chSrc 3, f.channel chSrc 2, f.channel chSrc 1, f.channel chSrc 0]

/-- One edge of `clk_pllx4`: the push button synchronizer, the data generator counter and the
shifter `ch_data_d <= {ch_data, ch_data_d[31:8]}`. -/
def clkPllx4 (chSrc : Fin 8 → BitVec 8) (pb : BitVec 4) : FastRegs where
  pb1d := pb
  pb2d := f.pb1d
  dataGen := f.dataGen + 1
  chDataD := f.chData chSrc ++ f.chDataD.extractLsb' 8 24

end FastRegs

/-! ## Clock edges -/

/-- One edge of `clk_pll`.  `chDataD` is the shifter's value from before the edge. -/
def Regs.clkPll (r : Regs) (chDataD : BitVec 32) (i : Pins) : Regs where
  currentSmState := r.nextSmState
  flagaD := i.flaga
  flagbD := i.flagb
  flagcD := i.flagc
  flagdD := i.flagd
  slwr1d := r.slwr
  slrdD1 := r.slrd
  slrdD2 := r.slrdD1
  slrdD3 := r.slrdD2
  slrdD4 := r.slrdD3
  dqD := r.dq i
  gpifAddressD := r.gpifAddress
  rdOeDelayCnt := r.rdOeDelayCntNext
  oeDelayCnt := r.oeDelayCntNext
  writeDelayCnt := r.writeDelayCntNext
  waitCtr := r.waitCtrNext
  waitCtrGbl := r.waitCtrGblNext i
  updateCtrFlag := r.updateCtrFlagNext
  txCtr := r.txCtrNext i
  writeCtr := r.writeCtrNext i
  packetIndex := r.packetIndexNext
  validPacket := r.validPacketNext
  config := r.configNext
  dataOut1d := chDataD
  dataOut2d := r.dataOut1d

/-- What the reset branches load. -/
def Regs.reset : Regs where
  currentSmState := .smIdle
  flagaD := false
  flagbD := false
  flagcD := false
  flagdD := false
  slwr1d := true
  slrdD1 := true
  slrdD2 := true
  slrdD3 := true
  slrdD4 := true
  dqD := 0
  gpifAddressD := 0
  rdOeDelayCnt := 0
  oeDelayCnt := 0
  writeDelayCnt := 0
  waitCtr := 0
  waitCtrGbl := 0
  updateCtrFlag := false
  txCtr := 0
  writeCtr := 0
  packetIndex := 0
  validPacket := false
  config := { packetsToSend := 0, chSrc := fun _ ↦ 8, userLed := 0b1111 }
  dataOut1d := 0
  dataOut2d := 0

/-- What the reset branches load in the fast domain. -/
def FastRegs.reset : FastRegs where
  pb1d := 0
  pb2d := 0
  dataGen := 0
  chDataD := 0

/-- All registers of the module, as they are in one `clk_pll` cycle before its first `clk_pllx4`
edge. -/
structure State where
  /-- The `clk_pll` domain. -/
  regs : Regs
  /-- The `clk_pllx4` domain. -/
  fast : FastRegs

/-- The fast registers after `k` of the `clk_pllx4` edges of a cycle. -/
def State.fastAfter (s : State) (i : Pins) : ℕ → FastRegs
  | 0 => s.fast
  | k + 1 => (fastAfter s i k).clkPllx4 s.regs.config.chSrc (i.pb (Fin.ofNat 4 k))

/-- One `clk_pll` period: four `clk_pllx4` edges, the last of them together with the `clk_pll`
edge, which therefore samples the shifter as the third left it. -/
def State.cycle (s : State) (i : Pins) : State where
  regs := s.regs.clkPll (s.fastAfter i 3).chDataD i
  fast := s.fastAfter i 4

end Fpga

/-- The module `main`. -/
def fpga : Clocked.Machine Fpga.State Fpga.Pins where
  reset := { regs := Fpga.Regs.reset, fast := Fpga.FastRegs.reset }
  edge := Fpga.State.cycle

end Usb3FpgaCard
