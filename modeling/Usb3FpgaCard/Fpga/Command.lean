import Usb3FpgaCard.Fpga.Parser
import Usb3FpgaCard.Fpga.Transmit

/-!
# One command at a time

What the card is for: it takes commands, each a burst of words, and answers each with as many
packets of samples as the command asks for.  `Config.ofCommand` is that reading of a command's
words, with no clock in it, and `Serves` says that the card as it runs cycle by cycle does with a
read burst what the command in it says, and nothing else, before it turns to the next one.

`ReadBurst.serves` is the refinement: every burst that starts with the header and has between 5
and 2^32 words is served, whatever the flags do and whatever came before.  That the answer is one
burst and cannot be confused with the answer to another command is `ReadBurst.answer`.
-/

set_option autoImplicit false

namespace Usb3FpgaCard
namespace Fpga

open Clocked

/-! ## Commands -/

/-- What a command asks for: word 1 is the packet count, the bytes of words 2 and 3 are the
channel sources and the low bits of word 4, inverted, the LEDs. -/
def Config.ofCommand (w : ℕ → BitVec 32) : Config where
  packetsToSend := w 1
  chSrc k := if k.val < 4 then byteOf (w 2) k.val else byteOf (w 3) (k.val - 4)
  userLed := ~~~((w 4).extractLsb' 0 4)

theorem Config.received_of_five_le {c : Config} {w : ℕ → BitVec 32} {n : ℕ} (hn : 5 ≤ n) :
    c.received w n = Config.ofCommand w := by
  simp only [Config.received, Config.ofCommand, show 1 < n by omega, show 2 < n by omega,
    show 3 < n by omega, show 4 < n by omega, if_true]

/-- The parser's step past the end of a complete command has no effect. -/
theorem Parser.idle_after {c : Config} {w : ℕ → BitVec 32} {n : ℕ} (h0 : w 0 = Regs.header)
    (h5 : 5 ≤ n) (hn : n ≤ 2 ^ 32) : (Parser.after c w n).idle.config = Config.ofCommand w := by
  rw [Parser.idle, Parser.parse, if_pos (Parser.after_valid h0 (by omega)), Parser.after_index,
    Parser.after_config h0 (by omega) hn, Config.received_of_five_le h5]
  rcases Nat.eq_or_lt_of_le hn with rfl | hlt
  · exact Config.load_other (n := 0) _ 0 (by omega) (.inl rfl)
  · exact Config.load_other _ _ hlt (.inr (by omega))

/-! ## Serving a command -/

section serves

variable (inp : ℕ → Pins)

/-- `SLRD` stays high from cycle `s` to cycle `u`. -/
def Quiet (s u : ℕ) : Prop := ∀ v, s ≤ v → v ≤ u → ¬ SlrdLow inp v

/-- In cycle `u` the parser takes the first word of a burst. -/
def ParsesHeader (u : ℕ) : Prop :=
  (regs inp u).readReady = true ∧ (regs inp u).packetIndex = 0

/-- The read burst at `t` is answered by a write burst of `M` cycles from cycle `a`: the only
strobes `SLWR` gives before the next strobe of `SLRD`, and complete when the state machine comes
back to `sm_idle`. -/
structure Answer (t L a M : ℕ) : Prop where
  /-- The answer is one contiguous burst. -/
  burst : WriteBurst inp a M
  /-- It comes after the decision to answer. -/
  start : t + L + 3 < a
  /-- The state machine is back in `sm_idle` right after it, and for the first time. -/
  idle : sm inp (a + M) = .smIdle ∧ ∀ u, t + L ≤ u → u < a + M → sm inp u ≠ .smIdle
  /-- Nothing is read meanwhile. -/
  quiet : Quiet inp (t + L) (a + M)
  /-- There is no other strobe until the next read. -/
  only : ∀ u, t ≤ u → Quiet inp (t + L) u → SlwrLow inp u → a ≤ u ∧ u < a + M

/-- The state machine waits for `FLAGA` or `FLAGB` from cycle `s` on. -/
def WaitsForever (s : ℕ) : Prop := ∀ u, s ≤ u → sm inp u = .smWaitFlaga ∨ sm inp u = .smWaitFlagb

/-- The card does with the read burst of `L` words at cycle `t` what the command `cmd` says. -/
structure Serves (t L : ℕ) (cmd : Config) : Prop where
  /-- The state machine leaves `sm_read_oe_delay` after cycle `t + L + 2`. -/
  leaves : sm inp (t + L + 2) = .smReadOeDelay ∧ sm inp (t + L + 3) ≠ .smReadOeDelay
  /-- From the cycle after that until the next header is parsed, the configuration is the
  command's. -/
  config : ∀ u, t + L + 3 ≤ u → (∀ v, t + L + 3 ≤ v → v < u → ¬ ParsesHeader inp v) →
    config inp u = cmd
  /-- A command for 0 packets is not answered. -/
  silent : cmd.packetsToSend = 0 → ∀ u, t ≤ u → Quiet inp (t + L) u → ¬ SlwrLow inp u
  /-- A command for `N` packets is answered by one burst of `4096 * N` words, unless the state
  machine never gets past the flags. -/
  answer : 1 ≤ cmd.packetsToSend.toNat → cmd.packetsToSend.toNat ≤ 2 ^ 20 →
    WaitsForever inp (t + L + 3) ∨ ∃ a, Answer inp t L a (4096 * cmd.packetsToSend.toNat)
  /-- Which it does as soon as `FLAGA` and after it `FLAGB` are high once. -/
  progress : ∀ p q, t + L + 3 ≤ p → (inp p).flaga = true → p < q → (inp q).flagb = true →
    ¬ WaitsForever inp (t + L + 3)

end serves

variable {inp : ℕ → Pins} {t L : ℕ}

/-! ## The configuration between two bursts -/

/-- A strobe after a burst means that a header has been parsed three cycles after the first. -/
theorem ReadBurst.quiet_of_not_parsesHeader (h : ReadBurst inp t L) {u : ℕ}
    (hno : ∀ v, t + L + 3 ≤ v → v < u → ¬ ParsesHeader inp v) {v : ℕ} (hv : t + L ≤ v)
    (hvu : v + 3 < u) : ¬ SlrdLow inp v := by
  intro hlow
  obtain ⟨r, h1, h2, hr⟩ := h.exists_next hv hlow
  have hst : Stretch (SlrdLow inp) r 0 := ⟨hr.before, fun i hi ↦ absurd hi (by omega)⟩
  refine hno (r + 3) (by omega) (by omega) ⟨readReady_iff.mpr hr.holds, ?_⟩
  exact congrArg Parser.index (parserAt_stretch hst hr 0 (Nat.le_refl 0))

/-- **The configuration a command leaves.** -/
theorem ReadBurst.config_of_header (h : ReadBurst inp t L) (h0 : word inp t 0 = Regs.header)
    (h5 : 5 ≤ L) (hL : L ≤ 2 ^ 32) {u : ℕ} (hu : t + L + 3 ≤ u)
    (hq : ∀ v, t + L ≤ v → v + 4 < u → ¬ SlrdLow inp v) :
    config inp u = Config.ofCommand (word inp t) := by
  rcases Nat.eq_or_lt_of_le hu with rfl | hlt
  · rw [config_stretch h.toStretch (Burst.rises h) (Nat.le_refl L),
      Parser.after_config h0 (by omega) hL, Config.received_of_five_le h5]
  · rw [h.config_after hlt hq, Parser.idle_after h0 h5 hL]

/-! ## The answer -/

/-- Nothing is read while a burst is being answered. -/
theorem ReadBurst.quiet_of_answering (h : ReadBurst inp t L) {w : ℕ} (hw : t + L + 3 ≤ w)
    (hans : ∀ v, t + L + 3 ≤ v → v ≤ w → (sm inp v).Answering) : Quiet inp (t + L) (w + 1) := by
  intro v h1 h2
  rcases Nat.eq_or_lt_of_le h2 with rfl | hlt
  · exact not_slrdLow_succ_of_answering (hans w hw (Nat.le_refl w))
  rcases Nat.lt_or_ge v (t + L + 3) with hlt' | hge
  · exact h.quiet_after h1 (Nat.le_of_lt hlt')
  · exact not_slrdLow_of_answering (hans v hge (Nat.le_of_lt_succ hlt))

/-- While nothing else is read, the state machine can only be answering the last burst. -/
theorem ReadBurst.answering (h : ReadBurst inp t L) {w : ℕ} (htw : t ≤ w)
    (hq : Quiet inp (t + L) w) (hw : (sm inp w).Answering) :
    t + L + 3 ≤ w ∧ sm inp (t + L + 3) = .smWaitFlaga ∧
      ∀ v, t + L + 3 ≤ v → v ≤ w → (sm inp v).Answering := by
  obtain ⟨t', L', h', hw', hsm, hall⟩ := exists_readBurst_of_answering hw
  have hr := Burst.rises h
  have hr' := Burst.rises h'
  have hlt : t' < t + L := by
    by_contra hge
    exact hq t' (by omega) (by omega) hr'.holds
  have hlt' : t < t' + L' := by
    by_contra hge
    rcases Nat.lt_or_ge t (t' + L' + 3) with h3 | h3
    · exact h'.quiet_after (by omega) (by omega) hr.holds
    · exact (hall t h3 htw).not_read.1 h.sm_start
  obtain ⟨rfl, rfl⟩ : t = t' ∧ L = L' := by
    rcases Nat.le_total t t' with hle | hle
    · exact Burst.eq_of_mem h h' hle hlt (Nat.le_refl t') (by have := h'.pos; omega)
    · exact Burst.eq_of_mem h h' (Nat.le_refl t) (by have := h.pos; omega) hle hlt'
  exact ⟨hw', hsm, hall⟩

/-- A strobe of `SLWR` after a burst, before the next: the state machine is answering it. -/
theorem ReadBurst.answering_of_slwrLow (h : ReadBurst inp t L) {u : ℕ} (htu : t ≤ u)
    (hq : Quiet inp (t + L) u) (hlow : SlwrLow inp u) :
    ∃ w, w + 1 = u ∧ sm inp w = .smWrite ∧ t + L + 3 ≤ w ∧ sm inp (t + L + 3) = .smWaitFlaga ∧
      ∀ v, t + L + 3 ≤ v → v ≤ w → (sm inp v).Answering := by
  obtain ⟨w, rfl, hw⟩ := slwrLow_iff.mp hlow
  have htw : t ≤ w := by
    by_contra hlt
    obtain rfl : w + 1 = t := by omega
    have := h.sm_start ▸ sm_edge inp w
    exact absurd (hw ▸ this).to_smRead (by simp)
  exact ⟨w, rfl, hw, h.answering htw (fun v h1 h2 ↦ hq v h1 (by omega)) (.inr (.inr (.inl hw)))⟩

/-- After a burst that is not answered nothing is sent. -/
theorem ReadBurst.silent (h : ReadBurst inp t L) (h0 : sm inp (t + L + 3) = .smIdle) {u : ℕ}
    (htu : t ≤ u) (hq : Quiet inp (t + L) u) : ¬ SlwrLow inp u := by
  intro hlow
  obtain ⟨w, -, -, -, hsm, -⟩ := h.answering_of_slwrLow htu hq hlow
  rw [h0] at hsm
  simp at hsm

/-- From the decision to answer, the state machine waits for ever or comes to `sm_write`, and does
nothing else before. -/
theorem exists_writePhase {e : ℕ} (he : sm inp e = .smWaitFlaga) :
    WaitsForever inp e ∨ ∃ l b, WritePhase inp l b ∧ e ≤ l ∧
      ∀ u, e ≤ u → u < b → sm inp u = .smWaitFlaga ∨ sm inp u = .smWaitFlagb := by
  rcases forever_or_leaves (P := fun u ↦ sm inp u = .smWaitFlaga) he with ha | ⟨l, hel, ha, hl⟩
  · exact .inl fun u hu ↦ .inl (ha u hu)
  have hl1 : sm inp (l + 1) = .smWaitFlagb := by
    rw [sm_next_smWaitFlaga (ha l hel (Nat.le_refl l))] at hl ⊢
    split at hl <;> simp_all
  rcases forever_or_leaves (P := fun u ↦ sm inp u = .smWaitFlagb) hl1 with hb | ⟨c, hlc, hb, hc⟩
  · refine .inl fun u hu ↦ ?_
    rcases Nat.lt_or_ge l u with hlt | hge
    · exact .inr (hb u hlt)
    · exact .inl (ha u hu hge)
  have hc1 : sm inp (c + 1) = .smWrite := by
    rw [sm_next_smWaitFlagb (hb c hlc (Nat.le_refl c))] at hc ⊢
    split at hc <;> simp_all
  refine .inr ⟨l, c + 1, ⟨⟨ha l hel (Nat.le_refl l), hl1⟩, by omega,
    fun u h1 h2 ↦ hb u h1 (by omega), hc1⟩, hel, fun u h1 h2 ↦ ?_⟩
  rcases Nat.lt_or_ge l u with hlt | hge
  · exact .inr (hb u hlt (by omega))
  · exact .inl (ha u h1 hge)

/-- **The answer to a burst is one write burst**, of the length its launch gives it. -/
theorem ReadBurst.answer (h : ReadBurst inp t L) (he : sm inp (t + L + 3) = .smWaitFlaga) :
    WaitsForever inp (t + L + 3) ∨ ∃ l b, WritePhase inp l b ∧ t + L + 3 ≤ l ∧
      Quiet inp (t + L) l ∧ Answer inp t L (b + 1) (wordCount (packetCount inp l)) := by
  rcases exists_writePhase he with hw | ⟨l, b, hw, hel, hwait⟩
  · exact .inl hw
  refine .inr ⟨l, b, hw, hel, ?_⟩
  have hlb := hw.lt
  have hans : ∀ u, t + L + 3 ≤ u → u < b + 1 + wordCount (packetCount inp l) →
      (sm inp u).Answering := by
    intro u h1 h2
    rcases Nat.lt_or_ge u l with hlt | hge
    · rcases hwait u h1 (by omega) with hu | hu
      · exact .inl hu
      · exact .inr (.inl hu)
    · exact hw.answering hge (by omega)
  have hidle : sm inp (b + 1 + wordCount (packetCount inp l)) = .smIdle := by
    rw [show b + 1 + wordCount (packetCount inp l) = b + wordCount (packetCount inp l) + 1 by omega]
    exact hw.sm_idle
  have hquiet : Quiet inp (t + L) (b + 1 + wordCount (packetCount inp l)) := by
    rw [Nat.add_right_comm]
    exact h.quiet_of_answering (by omega) fun v h1 h2 ↦ hans v h1 (by omega)
  refine ⟨fun v h1 h2 ↦ hquiet v h1 (by omega), hw.writeBurst, by omega, ⟨hidle, fun u h1 h2 ↦ ?_⟩,
    hquiet, fun u h1 h2 h3 ↦ ?_⟩
  · rcases Nat.lt_or_ge u (t + L + 3) with hlt | hge
    · simp [h.sm_oe h1 hlt]
    · exact (hans u hge h2).not_read.2.2
  · obtain ⟨w, rfl, hsm, hew, -, hall⟩ := h.answering_of_slwrLow h1 h2 h3
    constructor
    · by_contra hlt
      rcases hwait w hew (by omega) with hu | hu <;> rw [hsm] at hu <;> simp at hu
    · by_contra hge
      rcases Nat.eq_or_lt_of_le (Nat.le_of_not_lt hge) with heq | hlt
      · obtain rfl : w = b + wordCount (packetCount inp l) := by omega
        rw [hw.sm_end] at hsm
        simp at hsm
      · have hge : b + 1 + wordCount (packetCount inp l) ≤ w := by omega
        exact (hall _ (by omega) hge).not_read.2.2
          hidle

/-- The flags end the wait. -/
theorem not_waitsForever {e p q : ℕ} (hp : e ≤ p) (ha : (inp p).flaga = true) (hpq : p < q)
    (hb : (inp q).flagb = true) : ¬ WaitsForever inp e := by
  intro hw
  -- once past `FLAGA` the state machine never comes back to it
  have hb' : ∀ u, p + 2 ≤ u → sm inp u = .smWaitFlagb := by
    intro u hu
    induction u with
    | zero => omega
    | succ u ih =>
      rcases Nat.eq_or_lt_of_le hu with heq | hlt
      · obtain rfl : u = p + 1 := by omega
        rcases hw (p + 1) (by omega) with hs | hs
        · rw [sm_next_smWaitFlaga hs, flagaD_succ, if_pos ha]
        · rcases hw (p + 1 + 1) (by omega) with hs' | hs'
          · exact absurd (hs ▸ hs' ▸ sm_edge inp (p + 1)).to_smWaitFlaga (by simp)
          · exact hs'
      · rcases hw (u + 1) (by omega) with hs | hs
        · have hu' := ih (by omega)
          exact absurd (hu' ▸ hs ▸ sm_edge inp u).to_smWaitFlaga (by simp)
        · exact hs
  have hq := sm_next_smWaitFlagb (hb' (q + 1) (by omega))
  rw [flagbD_succ, if_pos hb, hb' (q + 1 + 1) (by omega)] at hq
  simp at hq

/-! ## The refinement -/

/-- **The decision to answer is taken on the burst's own count**, even for the shortest burst. -/
theorem ReadBurst.packetsToSend_leave (h : ReadBurst inp t L) (h0 : word inp t 0 = Regs.header)
    (hL : L ≤ 2 ^ 32) : (config inp (t + L + 2)).packetsToSend = word inp t 1 := by
  have h3 := h.three_le
  rw [show t + L + 2 = t + (L - 1) + 3 by omega,
    config_stretch h.toStretch (Burst.rises h) (by omega : L - 1 ≤ L),
    Parser.after_config h0 (by omega) (by omega), Config.received]
  exact if_pos (by omega)

/-- The state machine answers a command exactly if it asks for packets. -/
theorem ReadBurst.sm_leave_of_header (h : ReadBurst inp t L) (h0 : word inp t 0 = Regs.header)
    (hL : L ≤ 2 ^ 32) :
    sm inp (t + L + 3) = if word inp t 1 = 0 then .smIdle else .smWaitFlaga := by
  rw [h.sm_leave, h.packetsToSend_leave h0 hL]

/-- **The card serves every complete command**, whatever the flags do and whatever it was told
before. -/
theorem ReadBurst.serves (h : ReadBurst inp t L) (h0 : word inp t 0 = Regs.header) (h5 : 5 ≤ L)
    (hL : L < 2 ^ 32) : Serves inp t L (Config.ofCommand (word inp t)) where
  leaves := h.leaves
  config u hu hno := by
    refine h.config_of_header h0 h5 (by omega) hu fun v h1 h2 ↦ ?_
    exact h.quiet_of_not_parsesHeader hno h1 (by omega)
  silent hN u hu hq := by
    refine h.silent ?_ hu hq
    rw [h.sm_leave_of_header h0 (by omega), if_pos (show word inp t 1 = 0 from hN)]
  answer h1 h2 := by
    have hne : word inp t 1 ≠ 0 := fun h0 ↦ by
      rw [show (Config.ofCommand (word inp t)).packetsToSend = word inp t 1 from rfl, h0] at h1
      simp at h1
    have he : sm inp (t + L + 3) = .smWaitFlaga := by
      rw [h.sm_leave_of_header h0 (by omega), if_neg hne]
    rcases h.answer he with hw | ⟨l, b, -, hel, hq, ha⟩
    · exact .inl hw
    · have hl : packetCount inp l = (Config.ofCommand (word inp t)).packetsToSend := by
        rw [packetCount, h.config_of_header h0 h5 (by omega) hel fun v hv hvl ↦ hq v hv (by omega)]
      rw [hl, wordCount_eq h1 h2] at ha
      exact .inr ⟨b + 1, ha⟩
  progress _ _ hp ha hpq hb := not_waitsForever hp ha hpq hb

/-- While a command is being answered, the configuration is the command's. -/
theorem ReadBurst.config_of_answering (h : ReadBurst inp t L) (h0 : word inp t 0 = Regs.header)
    (h5 : 5 ≤ L) (hL : L ≤ 2 ^ 32) {u : ℕ} (hu : t + L + 3 ≤ u)
    (hans : ∀ v, t + L + 3 ≤ v → v + 4 < u → (sm inp v).Answering) :
    config inp u = Config.ofCommand (word inp t) := by
  refine h.config_of_header h0 h5 hL hu fun v h1 h2 ↦ ?_
  rcases Nat.lt_or_ge v (t + L + 3) with hlt | hge
  · exact h.quiet_after h1 (Nat.le_of_lt hlt)
  · exact not_slrdLow_of_answering (hans v hge h2)

/-- A complete command that asks for one packet and selects source `i` for channel `i`. -/
def onePacket (t : ℕ) : Pins where
  flaga := true
  flagb := true
  flagc := true
  flagd := decide (t < 5)
  dq := if t = 6 then Regs.header else if t = 7 then 1 else if t = 8 then 0x03020100
    else if t = 9 then 0x07060504 else 0
  pb := fun _ ↦ 0
  allCtrReset := false

theorem onePacket_readBurst : ReadBurst onePacket 4 5 :=
  readBurst_of_flagd (n := 3) sm_one rfl (by omega) (by decide) rfl

/-- It is served. -/
theorem serves_onePacket : Serves onePacket 4 5 (Config.ofCommand (word onePacket 4)) :=
  ReadBurst.serves onePacket_readBurst (by decide) (by omega) (by omega)

end Fpga
end Usb3FpgaCard
