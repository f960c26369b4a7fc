import Mathlib.Tactic.Linarith
import Mathlib.Tactic.NormNum
import Mathlib.Tactic.Ring
import Usb3FpgaCard.Fpga.Capture
import Usb3FpgaCard.Host.Window

/-!
# The time window: `time_label`

The time a capture takes is the number of its samples times the period of `clk_pllx4`, which
`fpga/ip/pll.v` makes four times as fast as the clock of 50 MHz it is given.  The application
computes it twice, each time in another way, and neither is right: the constructor divides 1 by
200000 as integers, which gives 0, and the handler of the slider takes the 16384 bytes of a packet
for samples of the clock of 50 MHz, which gives four times as much (`timeLabel_ne`).
-/

set_option autoImplicit false

namespace Usb3FpgaCard
namespace Host

open Fpga

variable {inp : ℕ → Pins} {a M v : ℕ}

/-! ## The clock -/

/-- The parameters of a clock that `altpll_component` makes. -/
structure PllClock where
  divideBy : ℕ
  multiplyBy : ℕ

/-- `inclk0_input_frequency`, which is a period in picoseconds. -/
def inclk0InputFrequency : ℕ := 20000

/-- `clk1`, which is `clk_pllx4`. -/
def clk1 : PllClock where
  divideBy := 1
  multiplyBy := 4

/-- The period of a clock in milliseconds. -/
def PllClock.period (c : PllClock) : ℚ :=
  inclk0InputFrequency * c.divideBy / c.multiplyBy / 10 ^ 9

/-- When edge `e` of `clk_pllx4` comes. -/
def edgeTime (e : ℕ) : ℚ := e * clk1.period

/-! ## The three times -/

/-- What the constructor shows for the value of the slider: all operands are `int`. -/
def constructorTime (value : ℤ) : ℤ := value * 8 * (Int.tdiv 1 200000 * 16384)

/-- What `on_packet_slider_valueChanged` shows. -/
def valueChangedTime (value : ℤ) : ℚ := (value * 8 : ℤ) * 0.32768

/-- The duration of the capture: one sample in each byte received. -/
def captureTime (v : ℕ) : ℚ := (v * rxTransferSize : ℕ) * clk1.period

/-- **Each byte of a write burst is the sample of its own edge**, so its samples take that long. -/
theorem captureTime_eq_of_writeBurst (h : WriteBurst inp a M) (hM : 4 * M = v * rxTransferSize) :
    (∀ n, n < 4 * M → burstByte inp a n = chDataAt inp (4 * a - 9 + n)) ∧
      edgeTime (4 * a - 9 + 4 * M) - edgeTime (4 * a - 9) = captureTime v := by
  refine ⟨fun n hn ↦ h.burstByte_eq hn, ?_⟩
  rw [edgeTime, edgeTime, captureTime, ← hM, Nat.cast_add]
  ring

/-! ## How they compare -/

theorem period_clk1 : clk1.period = 5 / 10 ^ 6 := by
  norm_num [PllClock.period, clk1, inclk0InputFrequency]

theorem captureTime_eq (v : ℕ) : captureTime v = v * 0.65536 := by
  rw [captureTime, period_clk1, rxTransferSize, packetSize, rxPacketsPerTransfer]
  push_cast
  ring

theorem captureTime_pos (hv : 1 ≤ v) : 0 < captureTime v := by
  have hv' : (1 : ℚ) ≤ v := Nat.one_le_cast.mpr hv
  rw [captureTime_eq]
  linarith

/-- **The constructor always shows 0.** -/
theorem constructorTime_eq (value : ℤ) : constructorTime value = 0 :=
  Int.mul_zero (value * 8)

/-- **The slider shows four times the duration.** -/
theorem valueChangedTime_eq (v : ℕ) : valueChangedTime v = 4 * captureTime v := by
  rw [valueChangedTime, captureTime_eq]
  push_cast
  ring

/-- **Neither of the two is the duration of the capture**, whatever the slider is set to. -/
theorem timeLabel_ne (v : ℕ) (hv : 1 ≤ v) :
    (constructorTime v : ℚ) ≠ captureTime v ∧ valueChangedTime v ≠ captureTime v := by
  have hpos := captureTime_pos hv
  constructor
  · rw [constructorTime_eq, Int.cast_zero]
    exact hpos.ne
  · rw [valueChangedTime_eq]
    intro heq
    linarith

/-- A single transfer. -/
theorem timeLabel_ne_one :
    (constructorTime (1 : ℕ) : ℚ) ≠ captureTime 1 ∧ valueChangedTime (1 : ℕ) ≠ captureTime 1 :=
  timeLabel_ne 1 (Nat.le_refl 1)

/-- **It takes 0.65536 ms**, and the application shows 0 ms and 2.62144 ms. -/
theorem not_timeLabel :
    ¬ ((constructorTime 1 : ℚ) = captureTime 1 ∧ valueChangedTime 1 = captureTime 1) := by
  rintro ⟨h, -⟩
  rw [constructorTime_eq, captureTime_eq] at h
  norm_num at h

end Host
end Usb3FpgaCard
