import Usb3FpgaCard.Fpga.Command
import Usb3FpgaCard.Host.Window

/-!
# Samples on their way to `DQ`

The `clk_pllx4` domain takes one sample of the eight channels at each of its edges and shifts it
into `ch_data_d` from the top.  The `clk_pll` domain looks at the shifter at every fourth edge, so
each look finds four new samples, the oldest in the low byte, and two more registers bring them to
`DQ`.

Edges of `clk_pllx4` are counted from the release of reset: edge `e` is number `e % 4` of cycle
`e / 4`.  The byte `n` of a write burst from cycle `a` is the sample of edge `4 * a - 9 + n`, with
no exception at the word boundaries (`WriteBurst.gapFree`).
-/

set_option autoImplicit false

namespace Usb3FpgaCard
namespace Fpga

open Clocked

variable {inp : ℕ → Pins} {t e a M : ℕ}

/-! ## The fast domain -/

/-- The `clk_pllx4` registers before edge `e`. -/
def fastAt (inp : ℕ → Pins) (e : ℕ) : FastRegs :=
  (fpga.run inp (e / 4)).fastAfter (inp (e / 4)) (e % 4)

/-- The value of `ch_data` at edge `e`: the sample taken there. -/
def chDataAt (inp : ℕ → Pins) (e : ℕ) : BitVec 8 :=
  (fastAt inp e).chData (config inp (e / 4)).chSrc

/-- One edge of `clk_pllx4`, whether or not it ends a cycle of `clk_pll`. -/
theorem fastAt_succ :
    fastAt inp (e + 1) =
      (fastAt inp e).clkPllx4 (config inp (e / 4)).chSrc
        ((inp (e / 4)).pb (Fin.ofNat 4 (e % 4))) := by
  rcases Nat.lt_or_ge (e % 4 + 1) 4 with hlt | hge
  · rw [fastAt, show (e + 1) / 4 = e / 4 by omega, show (e + 1) % 4 = e % 4 + 1 by omega]
    rfl
  · rw [fastAt, show (e + 1) / 4 = e / 4 + 1 by omega, show (e + 1) % 4 = 0 by omega, fastAt,
      show e % 4 = 3 by omega]
    rfl

theorem dataGen_succ : (fastAt inp (e + 1)).dataGen = (fastAt inp e).dataGen + 1 := by
  rw [fastAt_succ]
  rfl

/-- The synchronizer of the push buttons takes two edges. -/
theorem pb2d_succ : (fastAt inp (e + 2)).pb2d = (inp (e / 4)).pb (Fin.ofNat 4 (e % 4)) := by
  rw [fastAt_succ, FastRegs.clkPllx4, fastAt_succ]
  rfl

theorem chDataD_succ :
    (fastAt inp (e + 1)).chDataD = chDataAt inp e ++ (fastAt inp e).chDataD.extractLsb' 8 24 := by
  rw [fastAt_succ]
  rfl

theorem byteOf_append_three (x : BitVec 8) (y : BitVec 24) : byteOf (x ++ y) 3 = x := by
  refine BitVec.eq_of_getLsbD_eq fun j hj ↦ (getLsbD_byteOf _ hj).trans ?_
  refine BitVec.getLsbD_append.trans ?_
  rw [if_neg (by omega), Nat.add_sub_cancel_left]

theorem byteOf_append_shift (x : BitVec 8) (y : BitVec 32) {k : ℕ} (hk : k + 1 < 4) :
    byteOf (x ++ y.extractLsb' 8 24) k = byteOf y (k + 1) := by
  refine BitVec.eq_of_getLsbD_eq fun j hj ↦ (getLsbD_byteOf _ hj).trans ?_
  refine BitVec.getLsbD_append.trans ?_
  rw [if_pos (by omega), BitVec.getLsbD_extractLsb', decide_eq_true (by omega : 8 * k + j < 24),
    Bool.true_and, getLsbD_byteOf _ hj, show 8 + (8 * k + j) = 8 * (k + 1) + j by omega]

/-- **`ch_data_d` holds the last four samples**, the oldest in the low byte. -/
theorem byteOf_chDataD {k : ℕ} (hk : k < 4) :
    byteOf (fastAt inp (e + 4)).chDataD k = chDataAt inp (e + k) := by
  refine shifted (c := fun e k ↦ byteOf (fastAt inp e).chDataD k) ?_ ?_ e hk
  · intro e i hi
    obtain rfl : i = 3 := by omega
    rw [chDataD_succ, byteOf_append_three]
  · intro e i hi
    rw [chDataD_succ, byteOf_append_shift _ _ hi]

/-! ## From the shifter to the bus -/

/-- Two registers behind the shifter, which is read at the edge that ends a cycle. -/
theorem dataOut2d_succ : (regs inp (t + 2)).dataOut2d = (fastAt inp (4 * t + 3)).chDataD := by
  rw [fastAt, show (4 * t + 3) / 4 = t by omega, show (4 * t + 3) % 4 = 3 by omega]
  rfl

theorem dq_of_slwrLow (h : SlwrLow inp t) : dq inp t = (regs inp t).dataOut2d := by
  have h' : (regs inp t).slwr1d = false := h
  rw [dq, Regs.dq, h']
  rfl

/-- Byte `n` that a write burst from cycle `a` puts on `DQ`, low bytes first. -/
def burstByte (inp : ℕ → Pins) (a n : ℕ) : BitVec 8 := byteOf (dq inp (a + n / 4)) (n % 4)

/-- A write burst does not start before the pipeline has filled. -/
theorem WriteBurst.three_le (h : WriteBurst inp a M) : 3 ≤ a := by
  obtain ⟨l, b, hw, rfl, -⟩ := h.exists_launch
  have := hw.lt
  omega

/-- **Byte `n` of a write burst is the `n`-th of consecutive samples.** -/
theorem WriteBurst.burstByte_eq (h : WriteBurst inp a M) {n : ℕ} (hn : n < 4 * M) :
    burstByte inp a n = chDataAt inp (4 * a - 9 + n) := by
  have ha := h.three_le
  obtain ⟨s, rfl⟩ : ∃ s, a = s + 3 := ⟨a - 3, by omega⟩
  rw [burstByte, dq_of_slwrLow (h.holds (n / 4) (by omega)),
    show s + 3 + n / 4 = s + 1 + n / 4 + 2 by omega, dataOut2d_succ,
    show 4 * (s + 1 + n / 4) + 3 = 4 * (s + n / 4) + 3 + 4 by omega,
    byteOf_chDataD (Nat.mod_lt n (by omega)),
    show 4 * (s + n / 4) + 3 + n % 4 = 4 * (s + 3) - 9 + n by omega]

/-! ## What the samples are -/

theorem getLsbD_chData (f : FastRegs) (chSrc : Fin 8 → BitVec 8) (i : Fin 8) :
    (f.chData chSrc).getLsbD (7 - i.val) = f.channel chSrc i := by
  rw [FastRegs.chData]
  refine BitVec.getLsbD_ofBoolListLE.trans ?_
  match i with
  | 0 | 1 | 2 | 3 | 4 | 5 | 6 | 7 => rfl

/-- **On the host channel `i` is bit `i`.** -/
theorem getLsbD_reverse_chData (f : FastRegs) (chSrc : Fin 8 → BitVec 8) (i : Fin 8) :
    (Host.reverse (f.chData chSrc)).getLsbD i.val = f.channel chSrc i := by
  rw [Host.getLsbD_reverse, getLsbD_chData]

theorem getLsbD_dataSrc_pb (f : FastRegs) (k : ℕ) :
    f.dataSrc.getLsbD (9 + k) = f.pb2d.getLsbD k := by
  rw [FastRegs.dataSrc, BitVec.getLsbD_append, if_neg (by omega), Nat.add_sub_cancel_left]

/-- With source `i` selected for channel `i`, a sample is the data generator's counter. -/
theorem reverse_chData (f : FastRegs) {chSrc : Fin 8 → BitVec 8}
    (h : ∀ i : Fin 8, chSrc i = BitVec.ofNat 8 i.val) :
    Host.reverse (f.chData chSrc) = f.dataGen := by
  refine BitVec.eq_of_getLsbD_eq fun j hj ↦ ?_
  rw [getLsbD_reverse_chData f chSrc ⟨j, hj⟩, FastRegs.channel, h, BitVec.toNat_ofNat,
    Nat.mod_eq_of_lt (show j < 2 ^ 8 by omega), FastRegs.dataSrc, BitVec.getLsbD_append,
    if_pos (by omega), BitVec.getLsbD_append, if_pos hj]

/-! ## A write burst has no gaps -/

/-- The bytes of a write burst are consecutive samples, and show the counter counting if every
channel `i` has source `i` while they are taken. -/
structure GapFree (inp : ℕ → Pins) (a M : ℕ) : Prop where
  /-- The first sample. -/
  first : ∃ e, e + 9 = 4 * a ∧ ∀ n, n < 4 * M → burstByte inp a n = chDataAt inp (e + n)
  /-- The counter. -/
  counts : (∀ t, a ≤ t + 3 → t + 3 ≤ a + M → ∀ i : Fin 8,
      (config inp t).chSrc i = BitVec.ofNat 8 i.val) →
    ∀ n, n + 1 < 4 * M →
      Host.reverse (burstByte inp a (n + 1)) = Host.reverse (burstByte inp a n) + 1

/-- **Gap-free capture.** -/
theorem WriteBurst.gapFree (h : WriteBurst inp a M) : GapFree inp a M where
  first := ⟨4 * a - 9, by have := h.three_le; omega, fun _ ↦ h.burstByte_eq⟩
  counts hsrc n hn := by
    have ha := h.three_le
    rw [h.burstByte_eq hn, h.burstByte_eq (Nat.lt_of_succ_lt hn), chDataAt, chDataAt,
      reverse_chData _ (hsrc _ (by omega) (by omega)),
      reverse_chData _ (hsrc _ (by omega) (by omega))]
    exact dataGen_succ

theorem onePacket_writePhase : WritePhase onePacket 12 14 :=
  Launch.writePhase ⟨by decide, by decide⟩ rfl

theorem onePacket_wordCount : wordCount (packetCount onePacket 12) = 4096 := by
  rw [show packetCount onePacket 12 = 1 by decide, wordCount_eq (by decide) (by decide)]
  rfl

theorem onePacket_writeBurst : WriteBurst onePacket 15 4096 :=
  onePacket_wordCount ▸ onePacket_writePhase.writeBurst

/-- The sources the command selects are in place while the samples of its answer are taken. -/
theorem onePacket_chSrc (h1 : 12 ≤ t) (h2 : t ≤ 4110) (i : Fin 8) :
    (config onePacket t).chSrc i = BitVec.ofNat 8 i.val := by
  rw [onePacket_readBurst.config_of_answering (by decide) (by omega) (by omega) h1 fun v hv hvt ↦
    onePacket_writePhase.answering hv (by rw [onePacket_wordCount]; omega)]
  revert i
  decide

/-- In the run that selects source `i` for channel `i`, the answer counts. -/
theorem gapFree_onePacket :
    GapFree onePacket 15 4096 ∧
      ∀ n, n + 1 < 4 * 4096 →
        Host.reverse (burstByte onePacket 15 (n + 1)) =
          Host.reverse (burstByte onePacket 15 n) + 1 :=
  ⟨onePacket_writeBurst.gapFree, onePacket_writeBurst.gapFree.counts fun _ h1 h2 ↦
    onePacket_chSrc (by omega) (by omega)⟩

end Fpga
end Usb3FpgaCard
