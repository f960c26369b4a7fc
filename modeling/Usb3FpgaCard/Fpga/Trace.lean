import Usb3FpgaCard.Clocked.Wave
import Usb3FpgaCard.Fpga.Main

/-!
# Runs of the FPGA, cycle by cycle

`regs inp t` is the `clk_pll` register file in cycle `t` of the run under the pins `inp`, and the
waves here are what an observer of the pins sees of it: the strobes `SLRD`, `SLOE` and `SLWR`, the
value of `DQ`, the read bursts with their words and the write bursts.

The second half says what one edge does to the state machine.  `nextSmState` is never unfolded
after this file: `sm_next_smIdle`, … give the successors of each state with the guard of each, and
`SmEdge.to_smIdle`, … its predecessors.
-/

set_option autoImplicit false

namespace Usb3FpgaCard
namespace Fpga

open Clocked

variable (inp : ℕ → Pins) (t : ℕ)

/-! ## What an observer sees -/

/-- The `clk_pll` registers in cycle `t`. -/
def regs : Regs := (fpga.run inp t).regs

/-- `current_sm_state` in cycle `t`. -/
def sm : SmState := (regs inp t).currentSmState

/-- `packets_to_send`, `ch_src` and `USER_LED` in cycle `t`. -/
def config : Config := (regs inp t).config

/-- The pin `SLRD` is low. -/
def SlrdLow : Prop := (regs inp t).slrd = false

/-- The pin `SLOE` is low. -/
def SloeLow : Prop := (regs inp t).sloe = false

/-- The pin `SLWR` is low; `SLWR_1d_` also enables the module's own `DQ` driver. -/
def SlwrLow : Prop := (regs inp t).slwr1d = false

/-- The pins `ADDR`. -/
def addr : BitVec 2 := (regs inp t).gpifAddressD

/-- The value of `DQ`. -/
def dq : BitVec 32 := (regs inp t).dq (inp t)

/-- A read burst of `L` cycles from cycle `t`. -/
def ReadBurst (t L : ℕ) : Prop := Burst (SlrdLow inp) t L

/-- A write burst of `M` cycles from cycle `t`. -/
def WriteBurst (t M : ℕ) : Prop := Burst (SlwrLow inp) t M

/-- Word `i` of the read burst that starts in cycle `t`: the slave FIFO answers a strobe two
cycles later. -/
def word (t i : ℕ) : BitVec 32 := dq inp (t + i + 2)

instance : Decidable (SlrdLow inp t) := inferInstanceAs (Decidable (_ = _))
instance : Decidable (SloeLow inp t) := inferInstanceAs (Decidable (_ = _))
instance : Decidable (SlwrLow inp t) := inferInstanceAs (Decidable (_ = _))

variable {inp t}

/-! ## The registers after an edge -/

theorem regs_zero : regs inp 0 = Regs.reset := rfl

theorem sm_zero : sm inp 0 = .smIdle := rfl

theorem sm_succ : sm inp (t + 1) = (regs inp t).nextSmState := rfl

theorem config_succ : config inp (t + 1) = (regs inp t).configNext := rfl

theorem flagaD_succ : (regs inp (t + 1)).flagaD = (inp t).flaga := rfl

theorem flagbD_succ : (regs inp (t + 1)).flagbD = (inp t).flagb := rfl

theorem flagcD_succ : (regs inp (t + 1)).flagcD = (inp t).flagc := rfl

theorem flagdD_succ : (regs inp (t + 1)).flagdD = (inp t).flagd := rfl

theorem rdOeDelayCnt_succ :
    (regs inp (t + 1)).rdOeDelayCnt =
      if sm inp t = .smRead then 1
      else if sm inp t = .smReadRdAndOeDelay ∧ (regs inp t).rdOeDelayCnt > 0 then
        (regs inp t).rdOeDelayCnt - 1
      else (regs inp t).rdOeDelayCnt := rfl

theorem oeDelayCnt_succ :
    (regs inp (t + 1)).oeDelayCnt =
      if sm inp t = .smReadRdAndOeDelay then 2
      else if sm inp t = .smReadOeDelay ∧ (regs inp t).oeDelayCnt > 0 then
        (regs inp t).oeDelayCnt - 1
      else (regs inp t).oeDelayCnt := rfl

theorem writeDelayCnt_succ :
    (regs inp (t + 1)).writeDelayCnt =
      if sm inp t = .smWaitFlaga then ((config inp t).packetsToSend <<< 12) - 1
      else if sm inp t = .smWrite ∧ (regs inp t).writeDelayCnt > 0 then
        (regs inp t).writeDelayCnt - 1
      else (regs inp t).writeDelayCnt := rfl

/-! ## Strobes as decodes of the state -/

theorem slrdLow_iff :
    SlrdLow inp t ↔ sm inp t = .smRead ∨ sm inp t = .smReadRdAndOeDelay := by
  rw [SlrdLow, Regs.slrd, sm]
  split <;> simp_all

theorem sloeLow_iff :
    SloeLow inp t ↔
      sm inp t = .smRead ∨ sm inp t = .smReadRdAndOeDelay ∨ sm inp t = .smReadOeDelay := by
  rw [SloeLow, Regs.sloe, sm]
  split <;> simp_all

theorem slwrLow_succ : SlwrLow inp (t + 1) ↔ sm inp t = .smWrite := by
  rw [SlwrLow, show (regs inp (t + 1)).slwr1d = (regs inp t).slwr from rfl]
  simp [Regs.slwr, sm]

theorem not_slwrLow_zero : ¬ SlwrLow inp 0 := by
  simp [SlwrLow, regs_zero, Regs.reset]

theorem not_slrdLow_zero : ¬ SlrdLow inp 0 := by
  simp [slrdLow_iff, sm_zero]

/-- `SLWR` is a registered decode: it is low one cycle after the state machine is in `sm_write`. -/
theorem slwrLow_iff : SlwrLow inp t ↔ ∃ u, u + 1 = t ∧ sm inp u = .smWrite := by
  cases t with
  | zero => simp [not_slwrLow_zero]
  | succ t => simp [slwrLow_succ]

/-- While the module does not drive `DQ`, the other side does. -/
theorem dq_of_not_slwrLow (h : ¬ SlwrLow inp t) : dq inp t = (inp t).dq := by
  have h' : (regs inp t).slwr1d = true := by rwa [SlwrLow, Bool.not_eq_false] at h
  rw [dq, Regs.dq, if_pos h']

theorem addr_succ : addr inp (t + 1) = (regs inp t).gpifAddress := rfl

/-! ## Successors of a state -/

section successors

theorem sm_next_smIdle (h : sm inp t = .smIdle) :
    sm inp (t + 1) = if (regs inp t).flagcD = true then .smFlagcRcvd else .smIdle := by
  rw [sm] at h
  rw [sm_succ, Regs.nextSmState, h]

theorem sm_next_smFlagcRcvd (h : sm inp t = .smFlagcRcvd) : sm inp (t + 1) = .smWaitFlagd := by
  rw [sm] at h
  rw [sm_succ, Regs.nextSmState, h]

theorem sm_next_smWaitFlagd (h : sm inp t = .smWaitFlagd) :
    sm inp (t + 1) = if (regs inp t).flagdD = true then .smRead else .smWaitFlagd := by
  rw [sm] at h
  rw [sm_succ, Regs.nextSmState, h]

theorem sm_next_smRead (h : sm inp t = .smRead) :
    sm inp (t + 1) =
      if (regs inp t).flagdD = false then .smReadRdAndOeDelay else .smRead := by
  rw [sm] at h
  rw [sm_succ, Regs.nextSmState, h]

theorem sm_next_smReadRdAndOeDelay (h : sm inp t = .smReadRdAndOeDelay) :
    sm inp (t + 1) =
      if (regs inp t).rdOeDelayCnt = 0 then .smReadOeDelay else .smReadRdAndOeDelay := by
  rw [sm] at h
  rw [sm_succ, Regs.nextSmState, h]

theorem sm_next_smReadOeDelay (h : sm inp t = .smReadOeDelay) :
    sm inp (t + 1) =
      if (regs inp t).oeDelayCnt = 0 then
        if (config inp t).packetsToSend = 0 then .smIdle else .smWaitFlaga
      else .smReadOeDelay := by
  rw [sm] at h
  rw [sm_succ, Regs.nextSmState, h]
  rfl

theorem sm_next_smWaitFlaga (h : sm inp t = .smWaitFlaga) :
    sm inp (t + 1) = if (regs inp t).flagaD = true then .smWaitFlagb else .smWaitFlaga := by
  rw [sm] at h
  rw [sm_succ, Regs.nextSmState, h]

theorem sm_next_smWaitFlagb (h : sm inp t = .smWaitFlagb) :
    sm inp (t + 1) = if (regs inp t).flagbD = true then .smWrite else .smWaitFlagb := by
  rw [sm] at h
  rw [sm_succ, Regs.nextSmState, h]

theorem sm_next_smWrite (h : sm inp t = .smWrite) :
    sm inp (t + 1) = if (regs inp t).writeDelayCnt = 0 then .smWriteWrDelay else .smWrite := by
  rw [sm] at h
  rw [sm_succ, Regs.nextSmState, h]

theorem sm_next_smWriteWrDelay (h : sm inp t = .smWriteWrDelay) : sm inp (t + 1) = .smIdle := by
  rw [sm] at h
  rw [sm_succ, Regs.nextSmState, h]

end successors

/-! ## Predecessors of a state

The state machine is a ring with one chord, from the end of a read back to `sm_idle`, so most
states have one predecessor besides themselves. -/

/-- The transition graph of the state machine. -/
inductive SmEdge : SmState → SmState → Prop
  | idle : SmEdge .smIdle .smIdle
  | flagc : SmEdge .smIdle .smFlagcRcvd
  | settle : SmEdge .smFlagcRcvd .smWaitFlagd
  | waitFlagd : SmEdge .smWaitFlagd .smWaitFlagd
  | flagd : SmEdge .smWaitFlagd .smRead
  | read : SmEdge .smRead .smRead
  | lastWords : SmEdge .smRead .smReadRdAndOeDelay
  | rdDelay : SmEdge .smReadRdAndOeDelay .smReadRdAndOeDelay
  | rdDone : SmEdge .smReadRdAndOeDelay .smReadOeDelay
  | oeDelay : SmEdge .smReadOeDelay .smReadOeDelay
  | noAnswer : SmEdge .smReadOeDelay .smIdle
  | answer : SmEdge .smReadOeDelay .smWaitFlaga
  | waitFlaga : SmEdge .smWaitFlaga .smWaitFlaga
  | flaga : SmEdge .smWaitFlaga .smWaitFlagb
  | waitFlagb : SmEdge .smWaitFlagb .smWaitFlagb
  | flagb : SmEdge .smWaitFlagb .smWrite
  | write : SmEdge .smWrite .smWrite
  | writeDone : SmEdge .smWrite .smWriteWrDelay
  | done : SmEdge .smWriteWrDelay .smIdle

theorem sm_edge (inp : ℕ → Pins) (t : ℕ) : SmEdge (sm inp t) (sm inp (t + 1)) := by
  cases h : sm inp t with
  | smIdle => rw [sm_next_smIdle h]; split <;> constructor
  | smFlagcRcvd => rw [sm_next_smFlagcRcvd h]; constructor
  | smWaitFlagd => rw [sm_next_smWaitFlagd h]; split <;> constructor
  | smRead => rw [sm_next_smRead h]; split <;> constructor
  | smReadRdAndOeDelay => rw [sm_next_smReadRdAndOeDelay h]; split <;> constructor
  | smReadOeDelay =>
    rw [sm_next_smReadOeDelay h]
    split
    · split <;> constructor
    · constructor
  | smWaitFlaga => rw [sm_next_smWaitFlaga h]; split <;> constructor
  | smWaitFlagb => rw [sm_next_smWaitFlagb h]; split <;> constructor
  | smWrite => rw [sm_next_smWrite h]; split <;> constructor
  | smWriteWrDelay => rw [sm_next_smWriteWrDelay h]; constructor

section predecessors

variable {s : SmState}

theorem SmEdge.to_smIdle (h : SmEdge s .smIdle) :
    s = .smIdle ∨ s = .smReadOeDelay ∨ s = .smWriteWrDelay := by
  cases h <;> simp

theorem SmEdge.to_smFlagcRcvd (h : SmEdge s .smFlagcRcvd) : s = .smIdle := by
  cases h; rfl

theorem SmEdge.to_smWaitFlagd (h : SmEdge s .smWaitFlagd) :
    s = .smFlagcRcvd ∨ s = .smWaitFlagd := by
  cases h <;> simp

theorem SmEdge.to_smRead (h : SmEdge s .smRead) : s = .smWaitFlagd ∨ s = .smRead := by
  cases h <;> simp

theorem SmEdge.to_smReadRdAndOeDelay (h : SmEdge s .smReadRdAndOeDelay) :
    s = .smRead ∨ s = .smReadRdAndOeDelay := by
  cases h <;> simp

theorem SmEdge.to_smReadOeDelay (h : SmEdge s .smReadOeDelay) :
    s = .smReadRdAndOeDelay ∨ s = .smReadOeDelay := by
  cases h <;> simp

theorem SmEdge.to_smWaitFlaga (h : SmEdge s .smWaitFlaga) :
    s = .smReadOeDelay ∨ s = .smWaitFlaga := by
  cases h <;> simp

theorem SmEdge.to_smWaitFlagb (h : SmEdge s .smWaitFlagb) :
    s = .smWaitFlaga ∨ s = .smWaitFlagb := by
  cases h <;> simp

theorem SmEdge.to_smWrite (h : SmEdge s .smWrite) : s = .smWaitFlagb ∨ s = .smWrite := by
  cases h <;> simp

end predecessors

end Fpga
end Usb3FpgaCard
