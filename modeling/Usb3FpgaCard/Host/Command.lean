import Mathlib.Data.Fintype.Basic
import Mathlib.Tactic.FinCases
import Usb3FpgaCard.Fpga.Command
import Usb3FpgaCard.Host.Queue

/-!
# From the host to the card

A command leaves the host as a transfer of bytes, made by `populate_header` and filled up by
`send_bulk`, and reaches the card as a burst of words, little-endian as the GPIF is configured.
The two sides share no definition of it.  `command_agrees` says that they mean the same by it:
the card does what the widgets show, and it answers with exactly as many bytes as
`send_and_read_bulk` has posted buffers for.
-/

set_option autoImplicit false

namespace Usb3FpgaCard
namespace Host

open Fpga

variable {inp : ℕ → Pins} {t L v : ℕ} {ui : Ui}

/-! ## Words on the wire -/

/-- Four bytes as a word, the low byte first. -/
def leWord (b : ℕ → BitVec 8) : BitVec 32 := b 3 ++ b 2 ++ b 1 ++ b 0

theorem byteOf_leWord (b : ℕ → BitVec 8) {k : ℕ} (hk : k < 4) : byteOf (leWord b) k = b k := by
  refine BitVec.eq_of_getLsbD_eq fun j hj ↦ (getLsbD_byteOf _ hj).trans ?_
  refine BitVec.getLsbD_append.trans ?_
  rw [BitVec.getLsbD_append, BitVec.getLsbD_append]
  obtain rfl | rfl | rfl | rfl : k = 0 ∨ k = 1 ∨ k = 2 ∨ k = 3 := by omega
  · rw [if_pos (by omega), show 8 * 0 + j = j by omega]
  · rw [if_neg (by omega), if_pos (by omega), show 8 * 1 + j - 8 = j by omega]
  · rw [if_neg (by omega), if_neg (by omega), if_pos (by omega),
      show 8 * 2 + j - 8 - 8 = j by omega]
  · rw [if_neg (by omega), if_neg (by omega), if_neg (by omega),
      show 8 * 3 + j - 8 - 8 - 8 = j by omega]

/-- Word `i` of a transfer. -/
def wireWord (bytes : List (BitVec 8)) (i : ℕ) : BitVec 32 :=
  leWord fun k ↦ bytes.getD (4 * i + k) 0

/-- The transfer for the slider value `v`: `populate_header` and `send_bulk`. -/
def commandTransfer (ui : Ui) (v : ℕ) : List (BitVec 8) :=
  outBuf (populateHeader ui [] (BitVec.ofNat 32 (v * 8)))

/-- This is what `send_bulk` puts on the wire. -/
theorem sendBulk_command (o : Outcomes) :
    (sendBulk true o (populateHeader ui [] (BitVec.ofNat 32 (v * 8)))).2 =
      [.xferData (commandTransfer ui v)] := by
  rw [sendBulk, canSend, Bool.true_and, if_pos (decide_eq_true ?_)]
  · rfl
  · show 20 ≤ txTransferSize
    decide

theorem getD_outBuf (txBuf : List (BitVec 8)) {i : ℕ} (hi : i < txTransferSize) :
    (outBuf txBuf).getD i 0 = txBuf.getD i 0 := by
  rw [outBuf, List.getD_eq_getElem?_getD, List.getElem?_map, List.getElem?_range hi]
  rfl

/-! ## What a command says -/

/-- The bytes of the words that carry the header. -/
theorem byteOf_command {i k : ℕ} (hi : i < 5) (hk : k < 4) :
    byteOf (wireWord (commandTransfer ui v) i) k =
      (populateHeader ui [] (BitVec.ofNat 32 (v * 8))).getD (4 * i + k) 0 := by
  have hlt : 4 * i + k < txTransferSize := by
    rw [txTransferSize, packetSize, txPacketsPerTransfer]
    omega
  rw [wireWord, byteOf_leWord _ hk, commandTransfer, getD_outBuf _ hlt]

/-- The first word is the one the card looks for. -/
theorem wireWord_header : wireWord (commandTransfer ui v) 0 = Regs.header := by
  refine eq_of_byteOf_eq fun k hk ↦ ?_
  rw [byteOf_command (by omega) hk]
  obtain rfl | rfl | rfl | rfl : k = 0 ∨ k = 1 ∨ k = 2 ∨ k = 3 := by omega
  all_goals rfl

theorem setWidth_shift_and (n : BitVec 32) (k : ℕ) :
    ((n >>> (8 * k)) &&& 0xFF).setWidth 8 = byteOf n k := by
  refine BitVec.eq_of_getLsbD_eq fun j hj ↦ ?_
  have hmask : ∀ j, j < 8 → (0xFF : BitVec 32).getLsbD j = true := by decide
  rw [getLsbD_byteOf _ hj, BitVec.getLsbD_setWidth, decide_eq_true hj, Bool.true_and,
    BitVec.getLsbD_and, hmask j hj, Bool.and_true, BitVec.getLsbD_ushiftRight]

/-- The second word is the packet count, eight packets for each transfer. -/
theorem wireWord_packets : wireWord (commandTransfer ui v) 1 = BitVec.ofNat 32 (v * 8) := by
  refine eq_of_byteOf_eq fun k hk ↦ ?_
  rw [byteOf_command (by omega) hk, ← setWidth_shift_and]
  obtain rfl | rfl | rfl | rfl : k = 0 ∨ k = 1 ∨ k = 2 ∨ k = 3 := by omega
  all_goals rfl

/-- The next eight bytes are the channel sources. -/
theorem wireWord_chSrc (i : Fin 8) :
    (Config.ofCommand (wireWord (commandTransfer ui v))).chSrc i =
      BitVec.ofNat 8 (ui.ch i).val := by
  have hbyte : (populateHeader ui [] (BitVec.ofNat 32 (v * 8))).getD (8 + i.val) 0 =
      BitVec.ofNat 8 (ui.ch i).val := by
    fin_cases i <;> rfl
  simp only [Config.ofCommand]
  split
  case isTrue h => rw [byteOf_command (by omega) h, hbyte]
  case isFalse h =>
    rw [byteOf_command (by omega) (by omega), show 4 * 3 + (i.val - 4) = 8 + i.val by omega, hbyte]

theorem getLsbD_buttons (g : Fin 4 → Bool) (j : Fin 4) :
    (BitVec.ofNat 8 (g 3).toNat <<< 0 ||| BitVec.ofNat 8 (g 2).toNat <<< 1 |||
      BitVec.ofNat 8 (g 1).toNat <<< 2 ||| BitVec.ofNat 8 (g 0).toNat <<< 3).getLsbD j.val =
      g (Fin.rev j) := by
  match j with
  | 0 =>
    show _ = g 3
    cases g 0 <;> cases g 1 <;> cases g 2 <;> cases g 3 <;> rfl
  | 1 =>
    show _ = g 2
    cases g 0 <;> cases g 1 <;> cases g 2 <;> cases g 3 <;> rfl
  | 2 =>
    show _ = g 1
    cases g 0 <;> cases g 1 <;> cases g 2 <;> cases g 3 <;> rfl
  | 3 =>
    show _ = g 0
    cases g 0 <;> cases g 1 <;> cases g 2 <;> cases g 3 <;> rfl

/-- The low bits of the byte after them are the buttons, the last one first. -/
theorem wireWord_userLed (j : Fin 4) :
    (Config.ofCommand (wireWord (commandTransfer ui v))).userLed.getLsbD j.val =
      !ui.gpio (Fin.rev j) := by
  have hbyte : byteOf (wireWord (commandTransfer ui v) 4) 0 =
      BitVec.ofNat 8 (ui.gpio 3).toNat <<< 0 ||| BitVec.ofNat 8 (ui.gpio 2).toNat <<< 1 |||
        BitVec.ofNat 8 (ui.gpio 1).toNat <<< 2 ||| BitVec.ofNat 8 (ui.gpio 0).toNat <<< 3 :=
    byteOf_command (by omega) (by omega)
  have hbit : (Config.ofCommand (wireWord (commandTransfer ui v))).userLed.getLsbD j.val =
      !(byteOf (wireWord (commandTransfer ui v) 4) 0).getLsbD j.val := by
    rw [getLsbD_byteOf _ (by omega), Config.ofCommand, BitVec.getLsbD_not,
      BitVec.getLsbD_extractLsb', decide_eq_true j.isLt, Bool.true_and, Bool.true_and]
  rw [hbit, hbyte, getLsbD_buttons]

/-! ## Agreement -/

/-- The card does what the widgets show, and answers with what the host has room for. -/
structure Agrees (ui : Ui) (v : ℕ) (inp : ℕ → Pins) (t L : ℕ) : Prop where
  /-- The transfer the card reads is what `send_bulk` sends. -/
  wire : ∀ o, (sendBulk true o (populateHeader ui [] (BitVec.ofNat 32 (v * 8)))).2 =
    [.xferData (commandTransfer ui v)]
  /-- From the end of the burst until the next header is parsed, the card has the packet count, the
  channel sources and the LEDs of the widgets. -/
  config : ∀ u, t + L + 3 ≤ u → (∀ w, t + L + 3 ≤ w → w < u → ¬ ParsesHeader inp w) →
    (config inp u).packetsToSend = BitVec.ofNat 32 (8 * v) ∧
      (∀ i, (config inp u).chSrc i = BitVec.ofNat 8 (ui.ch i).val) ∧
      ∀ j : Fin 4, (config inp u).userLed.getLsbD j.val = !ui.gpio (Fin.rev j)
  /-- The answer is one burst of four bytes a word, unless the flags never let it start. -/
  answer : WaitsForever inp (t + L + 3) ∨ ∃ a M, Answer inp t L a M ∧ 4 * M = v * rxTransferSize
  /-- They let it start when they are high in turn. -/
  progress : ∀ p q, t + L + 3 ≤ p → (inp p).flaga = true → p < q → (inp q).flagb = true →
    ¬ WaitsForever inp (t + L + 3)
  /-- The host has posted `v` buffers, and so as many bytes. -/
  posted : ∀ o rxBuf, InitiallyAccepted o (BitVec.ofNat 32 v) →
    (begun (sendAndReadBulk true o (populateHeader ui [] (BitVec.ofNat 32 (v * 8))) rxBuf
      (BitVec.ofNat 32 v)).log).map Resources.buffer = List.range v

/-- `packet_index` does not start over within the words of a transfer. -/
theorem lt_of_le_txTransferSize {n : ℕ} (hn : 4 * n ≤ txTransferSize) : n < 2 ^ 32 := by
  rw [txTransferSize, packetSize, txPacketsPerTransfer] at hn
  omega

/-- **The host and the card agree**, for every setting of the widgets and in every state of the
card. -/
theorem command_agrees (h : ReadBurst inp t L) (h5 : 5 ≤ L) (hL : 4 * L ≤ txTransferSize)
    (hword : ∀ i, i < L → word inp t i = wireWord (commandTransfer ui v) i) (hv : 1 ≤ v)
    (hv' : 8 * v ≤ 2 ^ 20) : Agrees ui v inp t L := by
  have hL' : L < 2 ^ 32 := lt_of_le_txTransferSize hL
  have h0 : word inp t 0 = Regs.header := by rw [hword 0 (by omega), wireWord_header]
  have hserves := h.serves h0 h5 hL'
  have hcmd : Config.ofCommand (word inp t) =
      Config.ofCommand (wireWord (commandTransfer ui v)) := by
    rw [Config.ofCommand, Config.ofCommand, hword 1 (by omega), hword 2 (by omega),
      hword 3 (by omega), hword 4 (by omega)]
  rw [hcmd] at hserves
  have hcount : (Config.ofCommand (wireWord (commandTransfer ui v))).packetsToSend =
      BitVec.ofNat 32 (8 * v) := by
    rw [Nat.mul_comm]
    exact wireWord_packets
  have hnat : (Config.ofCommand (wireWord (commandTransfer ui v))).packetsToSend.toNat = 8 * v := by
    rw [hcount, BitVec.toNat_ofNat, Nat.mod_eq_of_lt (by omega)]
  refine ⟨sendBulk_command, fun u hu hno ↦ ?_, ?_, hserves.progress, fun o rxBuf hinit ↦ ?_⟩
  · rw [hserves.config u hu hno]
    exact ⟨hcount, wireWord_chSrc, wireWord_userLed⟩
  · rcases hserves.answer (by omega) (by omega) with hw | ⟨a, ha⟩
    · exact .inl hw
    · refine .inr ⟨a, _, ha, ?_⟩
      rw [hnat, rxTransferSize, packetSize, rxPacketsPerTransfer]
      omega
  · have hp := pipeline_transferred (populateHeader ui [] (BitVec.ofNat 32 (v * 8))) true hinit
    rw [log_sendAndReadBulk.1, hp.begun, BitVec.toNat_ofNat, Nat.mod_eq_of_lt (by omega),
      List.map_map]
    exact List.map_id _

/-- The combo boxes as the application sets them up, and the first button checked. -/
def firstUi : Ui where
  ch0 := 0
  ch1 := 1
  ch2 := 2
  ch3 := 3
  ch4 := 4
  ch5 := 5
  ch6 := 6
  ch7 := 7
  gpio0 := true
  gpio1 := false
  gpio2 := false
  gpio3 := false

/-- The card reads the first five words of the command for one transfer. -/
def oneTransfer (t : ℕ) : Pins where
  flaga := true
  flagb := true
  flagc := true
  flagd := decide (t < 5)
  dq := if t = 6 then Regs.header else if t = 7 then 8 else if t = 8 then 0x03020100
    else if t = 9 then 0x07060504 else 8
  pb := fun _ ↦ 0
  allCtrReset := false

theorem oneTransfer_readBurst : ReadBurst oneTransfer 4 5 :=
  readBurst_of_flagd (n := 3) sm_one rfl (by omega) (by decide) rfl

theorem oneTransfer_word {i : ℕ} (hi : i < 5) :
    word oneTransfer 4 i = wireWord (commandTransfer firstUi 1) i := by
  refine eq_of_byteOf_eq fun k hk ↦ ?_
  rw [byteOf_command hi hk]
  revert k
  revert i
  decide

/-- Host and card agree on it. -/
theorem agrees_oneTransfer : Agrees firstUi 1 oneTransfer 4 5 :=
  command_agrees oneTransfer_readBurst (by omega) (by decide) (fun _ ↦ oneTransfer_word) (by omega)
    (by omega)

end Host
end Usb3FpgaCard
