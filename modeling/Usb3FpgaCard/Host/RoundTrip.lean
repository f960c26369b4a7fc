import Usb3FpgaCard.Fpga.Server
import Usb3FpgaCard.Fx3.Delivery
import Usb3FpgaCard.Host.Pattern
import Usb3FpgaCard.Host.Report

/-!
# From a click to the screen

A click on `start_btn` sends a command, the card answers it, the FX3 hands the answer over, and
`update_plot` draws it.  Here the models of the four are put together, over a run with any number of
clicks: the commands the card reads are those the application sends (`AppTraffic`), the bytes that
reach the host are those of `hostStream`, under any interleaving, and each transfer takes what comes
next in that stream (`Delivered`).

The stream has the answer to a click exactly where its transfers look for it, because the card has
sent all that earlier clicks asked for and nothing else (`atRest`).  All packet counts of the
application are multiples of 8, so the answer comes with its packets exchanged in pairs, and this is
what is drawn (`onScreen`): each graph shows the source chosen for it, but two neighbouring
stretches of 16384 samples have changed places all along the time axis.  `DEBUG_PATTERN` does not
notice (`patternReport_eq_none`): the counter it looks for starts over after 256 samples, and 256
divides 16384.
-/

set_option autoImplicit false

namespace Usb3FpgaCard
namespace Host

open Clocked Channels Fpga Fx3

variable {inp : ℕ → Pins} {drain : ℕ → ℕ} {t u r L a M v : ℕ} {ui : Ui} {o : Outcomes}

/-! ## The commands of the application -/

/-- The read burst at `t` is the command of a click: of `start_btn` with the slider at `v`, or of a
gpio button, and then `v` is 0. -/
structure Carries (inp : ℕ → Pins) (t L : ℕ) (ui : Ui) (v : ℕ) : Prop where
  /-- The card reads at least the header, -/
  five_le : 5 ≤ L
  /-- and at most the transfer. -/
  le : 4 * L ≤ txTransferSize
  /-- The words are those of the transfer. -/
  word : ∀ i, i < L → word inp t i = wireWord (commandTransfer ui v) i
  /-- The range of the slider. -/
  range : 8 * v ≤ 2 ^ 20

/-- Every command the card reads is the application's. -/
def AppTraffic (inp : ℕ → Pins) : Prop := ∀ t L, ReadBurst inp t L → ∃ ui v, Carries inp t L ui v

/-- The bytes for which the clicks have posted buffers whose commands were read before cycle `t`. -/
def posted (inp : ℕ → Pins) (t : ℕ) : ℕ :=
  ((bursts (SlrdLow inp) t).map fun x ↦ (word inp x.1 1).toNat / 8 * rxTransferSize).sum

theorem padButton_eq (i : ℕ) (newData : List (BitVec 8)) :
    ∃ k, padButton i newData = newData ++ List.replicate k 0 := by
  fun_induction padButton with
  | case1 i newData _ ih =>
    obtain ⟨k, hk⟩ := ih
    exact ⟨k + 1, by rw [hk, List.append_assoc]; rfl⟩
  | case2 i newData _ => exact ⟨0, (List.append_nil _).symm⟩

/-- **A gpio button** sends the command for no packets. -/
theorem outBuf_padButton (ui : Ui) :
    outBuf (padButton 0 (populateHeader ui [] 0)) = commandTransfer ui 0 := by
  obtain ⟨k, hk⟩ := padButton_eq 0 (populateHeader ui [] 0)
  rw [hk, show commandTransfer ui 0 = outBuf (populateHeader ui [] 0) from rfl, outBuf, outBuf]
  refine List.map_congr_left fun i _ ↦ ?_
  rw [List.getD_eq_getElem?_getD, List.getD_eq_getElem?_getD]
  rcases Nat.lt_or_ge i (populateHeader ui [] 0).length with hlt | hge
  · rw [List.getElem?_append_left hlt]
  · rw [List.getElem?_append_right hge, List.getElem?_eq_none hge, List.getElem?_replicate]
    split <;> rfl

namespace Carries

variable (h : Carries inp t L ui v)
include h

theorem header : Fpga.word inp t 0 = Regs.header := by
  have h5 := h.five_le
  rw [h.word 0 (by omega), wireWord_header]

theorem length : L < 2 ^ 32 := lt_of_le_txTransferSize h.le

theorem count : (Fpga.word inp t 1).toNat = 8 * v := by
  have h5 := h.five_le
  have hrange := h.range
  rw [h.word 1 (by omega), wireWord_packets, BitVec.toNat_ofNat, Nat.mod_eq_of_lt (by omega),
    Nat.mul_comm]

theorem answerWords_eq : answerWords (Fpga.word inp t 1) = 4096 * (8 * v) := by
  rw [Fpga.answerWords_eq (by rw [h.count]; exact h.range), h.count]

end Carries

theorem AppTraffic.commands (h : AppTraffic inp) : Commands inp where
  header t L hb := by
    obtain ⟨ui, v, hc⟩ := h t L hb
    exact hc.header
  length t L hb := by
    obtain ⟨ui, v, hc⟩ := h t L hb
    exact hc.length

/-- **All packet counts are multiples of 8.** -/
theorem AppTraffic.packetCount_eq (h : AppTraffic inp) {l : ℕ} (hl : Launch inp l) :
    ∃ v, 1 ≤ v ∧ 8 * v ≤ 2 ^ 20 ∧ (packetCount inp l).toNat = 8 * v := by
  obtain ⟨r, L, hb, hle, hs, hans⟩ := exists_readBurst_of_answering (.inl hl.waitFlaga)
  obtain ⟨ui, v, hc⟩ := h r L hb
  have hq := hb.quiet_of_answering hle hans
  have hcount : packetCount inp l = word inp r 1 :=
    hb.get_config (f := .packetsToSend) hc.header hc.length
      (show 1 < L by have := hc.five_le; omega) hle fun v h1 h2 ↦ hq v h1 (by omega)
  refine ⟨v, ?_, hc.range, by rw [hcount, hc.count]⟩
  rw [hb.sm_leave_of_header hc.header (Nat.le_of_lt hc.length)] at hs
  by_contra hv
  have h0 : (word inp r 1).toNat = 0 := by rw [hc.count]; omega
  rw [if_pos (BitVec.eq_of_toNat_eq h0)] at hs
  simp at hs

theorem AppTraffic.evenCounts (h : AppTraffic inp) : EvenCounts inp where
  range l hl := by
    obtain ⟨v, h1, h2, heq⟩ := h.packetCount_eq hl
    omega
  even l hl := by
    obtain ⟨v, -, -, heq⟩ := h.packetCount_eq hl
    omega

/-- The host posts buffers for what it asks for. -/
theorem AppTraffic.posted_eq (h : AppTraffic inp) (t : ℕ) : posted inp t = 4 * asked inp t := by
  rw [posted, asked, ← List.sum_map_mul_left]
  refine congrArg List.sum (List.map_congr_left fun x hx ↦ ?_)
  obtain ⟨ui, v, hc⟩ := h x.1 x.2 (mem_bursts.mp hx).1
  rw [hc.answerWords_eq, hc.count, rxTransferSize, packetSize, rxPacketsPerTransfer]
  omega

/-! ## Between two clicks -/

/-- The card is set up as the widgets were at the last click. -/
structure SetUp (ui : Ui) (v : ℕ) (inp : ℕ → Pins) (t : ℕ) : Prop where
  count : (config inp t).packetsToSend = BitVec.ofNat 32 (8 * v)
  sources : ∀ i, (config inp t).chSrc i = BitVec.ofNat 8 (ui.ch i).val
  /-- The bit of an LED is low if its button is checked. -/
  leds : ∀ j : Fin 4, (config inp t).userLed.getLsbD j.val = !ui.gpio (Fin.rev j)

/-- What the card has done when it rests between two clicks. -/
structure AtRest (inp : ℕ → Pins) (t : ℕ) : Prop where
  /-- It has sent all bytes for which buffers have been posted, and no others. -/
  sent : 4 * strobeCount inp t = posted inp t
  /-- It is as after reset, or as the last click has left it. -/
  config : ((∀ v, v ≤ t → ¬ SlrdLow inp v) ∧ config inp t = Regs.reset.config) ∨
    ∃ r L ui v, ReadBurst inp r L ∧ Carries inp r L ui v ∧ r + L + 3 ≤ t ∧
      Quiet inp (r + L) t ∧ SetUp ui v inp t

theorem Carries.setUp (hc : Carries inp r L ui v)
    (h : config inp t = Config.ofCommand (Fpga.word inp r)) : SetUp ui v inp t := by
  have h5 := hc.five_le
  have hcmd : config inp t = Config.ofCommand (wireWord (commandTransfer ui v)) := by
    rw [h, Config.ofCommand, Config.ofCommand, hc.word 1 (by omega), hc.word 2 (by omega),
      hc.word 3 (by omega), hc.word 4 (by omega)]
  refine ⟨?_, fun i ↦ ?_, fun j ↦ ?_⟩
  · rw [hcmd, Nat.mul_comm]
    exact wireWord_packets
  · rw [hcmd, wireWord_chSrc]
  · rw [hcmd, wireWord_userLed]

/-- **Between two clicks** the widgets, the card and the buffers agree, in every run with the
application's commands. -/
theorem atRest (happ : AppTraffic inp) (h : (sm inp t).Resting) : AtRest inp t where
  sent := by
    rw [strobeCount_of_resting happ.commands h, happ.posted_eq]
  config := by
    rcases exists_last_command h with ⟨hnone, -⟩ | ⟨r, L, hb, hle, hq, -⟩
    · exact .inl ⟨hnone, config_of_none hnone⟩
    · obtain ⟨ui, v, hc⟩ := happ r L hb
      refine .inr ⟨r, L, ui, v, hb, hc, hle, hq, hc.setUp ?_⟩
      exact hb.config_of_header hc.header hc.five_le (Nat.le_of_lt hc.length) hle
        fun w h1 h2 ↦ hq w h1 (by omega)

/-! ## The transfers of a click -/

/-- What the IN endpoint does with the `v` transfers of a click: all of them are completed, and they
take the bytes of the stream from `start` on, each as many as fit in its buffer, in the order in
which they were submitted. -/
structure Delivered (o : Outcomes) (stream : List (BitVec 8)) (start v : ℕ) : Prop where
  accepted : ∀ k, k < v → o.accepted k = true
  waited : ∀ k, k < v → o.waited k = true
  finished : ∀ k, k < v → o.finished k = true
  data : ∀ k, k < v →
    o.data k = (stream.drop (start + k * rxTransferSize)).take rxTransferSize
  /-- So much has come. -/
  arrived : start + v * rxTransferSize ≤ stream.length

section delivered

variable {stream : List (BitVec 8)} {start : ℕ}

theorem Delivered.full (h : Delivered o stream start v) : ∀ k, k < v → o.Full k := by
  intro k hk
  have harrived := h.arrived
  have hle : (k + 1) * rxTransferSize ≤ v * rxTransferSize :=
    Nat.mul_le_mul_right _ (Nat.succ_le_of_lt hk)
  rw [Nat.succ_mul] at hle
  refine ⟨by rw [Outcomes.completed, h.accepted k hk, h.finished k hk]; rfl, ?_⟩
  rw [h.data k hk, List.length_take, List.length_drop]
  omega

/-- Consecutive pieces of a list. -/
theorem flatMap_pieces {α : Type*} (l : List α) (s c n : ℕ) :
    ((List.range n).flatMap fun k ↦ (l.drop (s + k * c)).take c) = (l.drop s).take (n * c) := by
  induction n with
  | zero => rw [Nat.zero_mul, List.take_zero, List.range_zero, List.flatMap_nil]
  | succ n ih =>
    rw [List.range_succ, List.flatMap_append, ih, List.flatMap_singleton, Nat.succ_mul,
      List.take_add, List.drop_drop]

/-- **What `send_and_read_bulk` returns** is the piece of the stream its buffers have room for. -/
theorem Delivered.sendAndReadBulk (h : Delivered o stream start v) (hv : 1 ≤ v)
    (hrange : 8 * v ≤ 2 ^ 20) (txBuf rxBuf : List (BitVec 8)) :
    (Host.sendAndReadBulk true o txBuf rxBuf (BitVec.ofNat 32 v)).rxBuf =
        (stream.drop start).take (v * rxTransferSize) ∧
      (Host.sendAndReadBulk true o txBuf rxBuf (BitVec.ofNat 32 v)).value = true := by
  have hnat : (BitVec.ofNat 32 v).toNat = v := by
    rw [BitVec.toNat_ofNat, Nat.mod_eq_of_lt (by omega)]
  have hfull : ∀ k, k < (BitVec.ofNat 32 v).toNat → o.Full k := by rw [hnat]; exact h.full
  have hinit : InitiallyAccepted o (BitVec.ofNat 32 v) := fun j hj ↦
    h.accepted j (hnat ▸ Nat.lt_of_lt_of_le hj (Nat.min_le_right _ _))
  refine ⟨?_, (value_iff hfull).mpr (by rw [hnat]; exact h.waited)⟩
  rw [(rxBuf_eq_iff (by omega)).mpr hfull, deliveredIn, log_sendAndReadBulk.2,
    (pipeline_transferred txBuf true hinit).finished, List.length_map, List.length_range, hnat,
    ← flatMap_pieces]
  refine List.flatMap_congr fun k hk ↦ ?_
  have hk' := List.mem_range.mp hk
  rw [Outcomes.delivered, if_pos (h.full k hk').1, h.data k hk']

end delivered

/-! ## On the screen -/

/-- What a click on `start_btn` leaves in the window `w`, when its command was read in cycle `r` and
the answer written from cycle `a` on. -/
structure OnScreen (w : Window) (ui : Ui) (v : ℕ) (o : Outcomes) (inp : ℕ → Pins) (a : ℕ) :
    Prop where
  /-- `send_and_read_bulk` reports success, -/
  value : (sendAndReadBulk true o (populateHeader ui [] (BitVec.ofNat 32 (v * 8))) w.dataBuffer
    (BitVec.ofNat 32 v)).value = true
  /-- `data_buffer` has the bytes of the answer, the packets exchanged in pairs. -/
  data : (w.onStartBtnClicked ui v o).dataBuffer =
    (List.range (v * rxTransferSize)).map fun n ↦ burstByte inp a (partner packetSize n)
  /-- Point `n` of graph `g` is the source of the combo box of channel `g`, at the edge of
  `clk_pllx4` that the partner of `n` is the number of. -/
  graph : ∀ g, (w.onStartBtnClicked ui v o).plot g =
    (List.range (v * rxTransferSize)).map fun n : ℕ ↦
      ((n : ℚ), (7 - (g.val : ℚ)) * (5 / 2) + 5 / 4 *
        ((fastAt inp (4 * a - 9 + partner packetSize n)).dataSrc.getLsbD (ui.ch g).val).toNat)

section click

variable {w : Window}

/-- The answer has as many bytes as the click has posted buffers for. -/
theorem Carries.length_answer (hc : Carries inp r L ui v) (happ : AppTraffic inp)
    (hb : ReadBurst inp r L) (ha : Answer inp r L a M) : 4 * M = v * rxTransferSize := by
  rw [hb.length_answer happ.commands ha, hc.answerWords_eq, rxTransferSize, packetSize,
    rxPacketsPerTransfer]
  omega

/-- **The bytes that a click receives**, once they have come. -/
theorem AppTraffic.received (happ : AppTraffic inp) (hb : ReadBurst inp r L)
    (hc : Carries inp r L ui v) (ha : Answer inp r L a M)
    (hlen : posted inp r + v * rxTransferSize ≤ (hostStream inp drain t).length) :
    ((hostStream inp drain t).drop (posted inp r)).take (v * rxTransferSize) =
      (List.range (v * rxTransferSize)).map fun n ↦ burstByte inp a (partner packetSize n) := by
  have hM := hc.length_answer happ hb ha
  have hstart : posted inp r = 4 * strobeCount inp a := by
    rw [happ.posted_eq, hb.strobeCount_answer happ.commands ha]
  refine List.ext_getElem? fun n ↦ ?_
  rcases Nat.lt_or_ge n (v * rxTransferSize) with hlt | hge
  · rw [List.getElem?_take_of_lt hlt, List.getElem?_drop, hstart,
      happ.evenCounts.hostStream_burst ha.burst (by omega) (by omega), List.getElem?_map,
      List.getElem?_range hlt]
    rfl
  · rw [List.getElem?_eq_none, List.getElem?_eq_none]
    · rw [List.length_map, List.length_range]
      exact hge
    · rw [List.length_take]
      omega

/-- Exchanged bytes stay inside the transfers, which are whole pairs of packets. -/
theorem partner_lt_transfers {n : ℕ} (hn : n < v * rxTransferSize) :
    partner packetSize n < v * rxTransferSize := by
  have hpairs : v * rxTransferSize = 2 * packetSize * (4 * v) := by
    rw [rxTransferSize, packetSize, rxPacketsPerTransfer]
    omega
  rw [hpairs] at hn ⊢
  exact partner_lt (by decide) hn

/-- **Every byte of an answer is a sample taken with the sources of the command.** -/
theorem Carries.burstByte_eq (hc : Carries inp r L ui v) (hb : ReadBurst inp r L)
    (ha : Answer inp r L a M) {n : ℕ} (hn : n < 4 * M) :
    burstByte inp a n = (fastAt inp (4 * a - 9 + n)).chData
      (Config.ofCommand (wireWord (commandTransfer ui v))).chSrc := by
  have h5 := hc.five_le
  have hstart := ha.start
  have ha3 := ha.burst.three_le
  have hr : Replies inp r L a M :=
    ⟨ha.burst, by omega, fun v h1 h2 ↦ ha.quiet v h1 (by omega)⟩
  have hsrc : (Config.ofCommand (Fpga.word inp r)).chSrc =
      (Config.ofCommand (wireWord (commandTransfer ui v))).chSrc := by
    rw [Config.ofCommand, Config.ofCommand, hc.word 2 (by omega), hc.word 3 (by omega)]
  rw [ha.burst.burstByte_eq hn, chDataAt, hr.chSrc hb hc.header (by omega) hc.length (by omega)
    (by omega), hsrc]

/-- The bytes received show the sources of the combo boxes. -/
theorem Carries.shows (hc : Carries inp r L ui v) (happ : AppTraffic inp) (hb : ReadBurst inp r L)
    (ha : Answer inp r L a M) :
    Shows ui ((List.range (v * rxTransferSize)).map fun n ↦
        (fastAt inp (4 * a - 9 + partner packetSize n)).dataSrc)
      ((List.range (v * rxTransferSize)).map fun n ↦ burstByte inp a (partner packetSize n)) := by
  have hbyte : ∀ n ∈ List.range (v * rxTransferSize), burstByte inp a (partner packetSize n) =
      (fastAt inp (4 * a - 9 + partner packetSize n)).chData
        (Config.ofCommand (wireWord (commandTransfer ui v))).chSrc := fun n hn ↦
    hc.burstByte_eq hb ha (by
      rw [hc.length_answer happ hb ha]
      exact partner_lt_transfers (List.mem_range.mp hn))
  rw [List.map_congr_left hbyte]
  exact shows_of_chSrc _ (fun n ↦ fastAt inp (4 * a - 9 + partner packetSize n)) wireWord_chSrc

/-- What a click does with what it has received. -/
theorem Window.onStartBtnClicked_eq (hw : w.communicationEnabled = true) {bytes : List (BitVec 8)}
    (h : (sendAndReadBulk true o (populateHeader ui [] (BitVec.ofNat 32 (v * 8))) w.dataBuffer
      (BitVec.ofNat 32 v)).rxBuf = bytes) :
    (w.onStartBtnClicked ui v o).dataBuffer = bytes ∧
      (w.onStartBtnClicked ui v o).plot = updatePlot w.plot bytes := by
  rw [Window.onStartBtnClicked, if_pos hw, ← h]
  exact ⟨rfl, rfl⟩

/-- The bytes a click leaves in `data_buffer`. -/
theorem AppTraffic.sendAndReadBulk (happ : AppTraffic inp) (hb : ReadBurst inp r L)
    (hc : Carries inp r L ui v) (hv : 1 ≤ v) (ha : Answer inp r L a M)
    (hdel : Delivered o (hostStream inp drain t) (posted inp r) v) (txBuf rxBuf : List (BitVec 8)) :
    (Host.sendAndReadBulk true o txBuf rxBuf (BitVec.ofNat 32 v)).rxBuf =
        (List.range (v * rxTransferSize)).map
          (fun n ↦ burstByte inp a (partner packetSize n)) ∧
      (Host.sendAndReadBulk true o txBuf rxBuf (BitVec.ofNat 32 v)).value = true := by
  rw [← happ.received hb hc ha hdel.arrived]
  exact hdel.sendAndReadBulk hv hc.range txBuf rxBuf

/-- **From the click to the screen.**  In any run with the application's commands, under any
interleaving with the USB side: once the bytes a click has asked for have come, this is what it
leaves in the window. -/
theorem onScreen (happ : AppTraffic inp) (hb : ReadBurst inp r L) (hc : Carries inp r L ui v)
    (hv : 1 ≤ v) (ha : Answer inp r L a M)
    (hdel : Delivered o (hostStream inp drain t) (posted inp r) v)
    (hw : w.communicationEnabled = true) : OnScreen w ui v o inp a := by
  obtain ⟨hbytes, hvalue⟩ := happ.sendAndReadBulk hb hc hv ha hdel
    (populateHeader ui [] (BitVec.ofNat 32 (v * 8))) w.dataBuffer
  obtain ⟨hdata, hplot⟩ := Window.onStartBtnClicked_eq hw hbytes
  refine ⟨hvalue, hdata, fun g ↦ ?_⟩
  rw [hplot, (hc.shows happ hb ha).graph]
  refine List.ext_getElem (by simp) fun n h1 h2 ↦ ?_
  simp only [List.getElem_mapIdx, List.getElem_map, List.getElem_range]

/-! ## What the pattern check sees of it -/

/-- The counter of the data generator after `k` more edges. -/
theorem dataGen_add (inp : ℕ → Pins) (e k : ℕ) :
    (fastAt inp (e + k)).dataGen = (fastAt inp e).dataGen + BitVec.ofNat 8 k := by
  induction k with
  | zero => exact (BitVec.add_zero _).symm
  | succ k ih =>
    rw [← Nat.add_assoc, dataGen_succ, ih, BitVec.add_assoc, BitVec.ofNat_add]
    rfl

/-- **The check passes data that counts**, also over the wrap from 255 to 0. -/
theorem patternCheck_eq_none {data : List (BitVec 8)} (h : ¬ NotContinuous data) :
    patternCheck data = none := by
  rw [← Option.not_isSome_iff_eq_none, isSome_patternCheck_iff]
  exact fun hgap ↦ h hgap.notContinuous

/-- Partners have the same remainder modulo 256. -/
theorem ofNat_partner (n : ℕ) : BitVec.ofNat 8 (partner packetSize n) = BitVec.ofNat 8 n := by
  refine BitVec.eq_of_toNat_eq ?_
  rw [BitVec.toNat_ofNat, BitVec.toNat_ofNat, partner, packetSize]
  split <;> omega

/-- **`DEBUG_PATTERN` does not see that packets have changed places**: with source `i` on every
channel `i`, a click reports nothing. -/
theorem patternReport_eq_none (happ : AppTraffic inp) (hb : ReadBurst inp r L)
    (hc : Carries inp r L ui v) (hv : 1 ≤ v) (ha : Answer inp r L a M)
    (hdel : Delivered o (hostStream inp drain t) (posted inp r) v)
    (hui : ∀ i : Fin 8, (ui.ch i).val = i.val) : w.patternReport ui v o = none := by
  rw [Window.patternReport]
  split
  case isFalse => rfl
  case isTrue hw =>
    obtain ⟨hbytes, -⟩ := happ.sendAndReadBulk hb hc hv ha hdel
      (populateHeader ui [] (BitVec.ofNat 32 (v * 8))) w.dataBuffer
    rw [(Window.onStartBtnClicked_eq hw hbytes).1]
    have hsrc : ∀ i : Fin 8, (Config.ofCommand (wireWord (commandTransfer ui v))).chSrc i =
        BitVec.ofNat 8 i.val := fun i ↦ by rw [wireWord_chSrc, hui]
    have hcounts : ∀ n, n < v * rxTransferSize →
        Host.reverse (burstByte inp a (partner packetSize n)) =
          (fastAt inp (4 * a - 9)).dataGen + BitVec.ofNat 8 n := fun n hn ↦ by
      have hlt := partner_lt_transfers hn
      rw [← hc.length_answer happ hb ha] at hlt
      rw [hc.burstByte_eq hb ha hlt, reverse_chData _ hsrc, dataGen_add, ofNat_partner]
    refine patternCheck_eq_none ?_
    rintro ⟨i, hi, hbreaks⟩
    refine hbreaks ?_
    rw [List.length_map, List.length_range] at hi
    rw [List.getElem_map, List.getElem_map, List.getElem_range, List.getElem_range, hcounts _ hi,
      hcounts i (by omega), BitVec.add_assoc, BitVec.ofNat_add]
    rfl

end click

/-! ### One click -/

/-- The transfers of a click are completed with what is in the stream from `start` on. -/
def delivering (stream : List (BitVec 8)) (start : ℕ) : Outcomes :=
  { allWell with
    data := fun k ↦ (stream.drop (start + k * rxTransferSize)).take rxTransferSize
    data_le := fun _ ↦ List.length_take_le _ _ }

theorem delivered_delivering {stream : List (BitVec 8)} {start v : ℕ}
    (h : start + v * rxTransferSize ≤ stream.length) :
    Delivered (delivering stream start) stream start v :=
  ⟨fun _ _ ↦ rfl, fun _ _ ↦ rfl, fun _ _ ↦ rfl, fun _ _ ↦ rfl, h⟩

theorem oneTransfer_carries : Carries oneTransfer 4 5 firstUi 1 where
  five_le := Nat.le_refl 5
  le := by decide
  word _ := oneTransfer_word
  range := by omega

theorem appTraffic_oneTransfer : AppTraffic oneTransfer := fun t L h ↦ by
  obtain rfl : t = 4 := rises_of_flagd (fun _ ↦ rfl) oneTransfer_readBurst (Burst.rises h)
  obtain rfl := Burst.length_unique h oneTransfer_readBurst
  exact ⟨firstUi, 1, oneTransfer_carries⟩

/-- The card answers, and everything comes to the host. -/
theorem oneTransfer_delivered :
    ∃ a M drain t, Answer oneTransfer 4 5 a M ∧
      Delivered (delivering (hostStream oneTransfer drain t) (posted oneTransfer 4))
        (hostStream oneTransfer drain t) (posted oneTransfer 4) 1 := by
  have hwait : ¬ WaitsForever oneTransfer 12 :=
    not_waitsForever (p := 12) (q := 13) (Nat.le_refl _) rfl (by omega) rfl
  obtain ⟨a, ha⟩ := (oneTransfer_readBurst.exists_answer (by decide) (by omega)
    (by decide)).resolve_left hwait
  have hc := oneTransfer_carries
  have happ := appTraffic_oneTransfer
  have hpos := ha.burst.pos
  obtain ⟨drain, hs⟩ := exists_settled oneTransfer
    (a + answerWords (word oneTransfer 4 1) - 1)
  rw [Nat.sub_add_cancel (by omega)] at hs
  have hall := happ.evenCounts.length_hostStream ha.burst ha.idle.1 hs (Nat.le_refl _)
  rw [hc.length_answer happ oneTransfer_readBurst ha,
    oneTransfer_readBurst.strobeCount_answer happ.commands ha, ← happ.posted_eq] at hall
  exact ⟨a, _, drain, _, ha, delivered_delivering hall⟩

/-- The window when both endpoints have been selected. -/
def selected : Window := { Window.initial [] with communicationEnabled := true }

theorem onScreen_oneTransfer : ∃ o a, OnScreen selected firstUi 1 o oneTransfer a := by
  obtain ⟨a, M, drain, t, ha, hdel⟩ := oneTransfer_delivered
  exact ⟨_, a, onScreen appTraffic_oneTransfer oneTransfer_readBurst oneTransfer_carries
    (Nat.le_refl 1) ha hdel rfl⟩

/-- After the answer. -/
theorem atRest_oneTransfer : ∃ t, 4 < t ∧ AtRest oneTransfer t := by
  obtain ⟨a, M, drain, t, ha, -⟩ := oneTransfer_delivered
  have hstart := ha.start
  exact ⟨a + M, by omega, atRest appTraffic_oneTransfer (.inl ha.idle.1)⟩

theorem patternReport_oneTransfer : ∃ o, selected.patternReport firstUi 1 o = none := by
  obtain ⟨a, M, drain, t, ha, hdel⟩ := oneTransfer_delivered
  exact ⟨_, patternReport_eq_none appTraffic_oneTransfer oneTransfer_readBurst oneTransfer_carries
    (Nat.le_refl 1) ha hdel (by decide)⟩

end Host
end Usb3FpgaCard
