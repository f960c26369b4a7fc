import Usb3FpgaCard.Fpga.Phases

/-!
# The command parser

`packet_index`, `valid_packet` and the block "Parse packet" run three cycles behind the strobes.
Seen from the words of a burst they are one small machine that takes a word at a time,
`Parser.read`; `Parser.after c w n` is its state after the words `w 0, …, w (n - 1)` when the
configuration was `c` before.  `parserAt_stretch` connects the two: `i` words into a burst, three
cycles late, the registers are what `Parser.after` says.

The parser takes one step more than the burst has words.  `valid_packet` falls a cycle after
`read_ready`, and in that cycle `read_data` is 0 and `packet_index` is the length of the burst:
`Parser.idle` is that step, and `ReadBurst.config_after` shows where it is felt.
-/

set_option autoImplicit false

namespace Usb3FpgaCard
namespace Fpga

open Clocked

/-! ## The parser, one word at a time -/

/-- `packet_index`, `valid_packet` and the configuration. -/
@[ext] structure Parser where
  /-- `packet_index`. -/
  index : BitVec 32
  /-- `valid_packet`. -/
  valid : Bool
  /-- `packets_to_send`, `ch_src` and `USER_LED`. -/
  config : Config

namespace Parser

/-- What the block "Parse packet" does in either case. -/
def parse (p : Parser) (data : BitVec 32) : Config :=
  if p.valid then p.config.load p.index data else p.config

/-- An edge with `read_ready` high and `data` on `read_data`. -/
def read (p : Parser) (data : BitVec 32) : Parser where
  index := p.index + 1
  valid := if p.index = 0 ∧ data = Regs.header then true else p.valid
  config := p.parse data

/-- An edge with `read_ready` low. -/
def idle (p : Parser) : Parser where
  index := 0
  valid := false
  config := p.parse 0

/-- The parser after the first `n` words of a burst. -/
def after (c : Config) (w : ℕ → BitVec 32) : ℕ → Parser
  | 0 => { index := 0, valid := false, config := c }
  | n + 1 => (after c w n).read (w n)

variable {c : Config} {w : ℕ → BitVec 32} {n : ℕ}

theorem after_index : (after c w n).index = BitVec.ofNat 32 n := by
  induction n with
  | zero => rfl
  | succ n ih =>
    rw [after, read, ih, BitVec.ofNat_add]
    rfl

/-- A header has come among the first `n` words, where `packet_index` was 0. -/
def HeaderBefore (w : ℕ → BitVec 32) (n : ℕ) : Prop :=
  ∃ i, i < n ∧ 2 ^ 32 ∣ i ∧ w i = Regs.header

instance (w : ℕ → BitVec 32) (n : ℕ) : Decidable (HeaderBefore w n) :=
  inferInstanceAs (Decidable (∃ i, i < n ∧ 2 ^ 32 ∣ i ∧ w i = Regs.header))

theorem headerBefore_succ :
    HeaderBefore w (n + 1) ↔ 2 ^ 32 ∣ n ∧ w n = Regs.header ∨ HeaderBefore w n := by
  constructor
  · rintro ⟨i, hi, h⟩
    rcases Nat.lt_succ_iff_lt_or_eq.mp hi with hlt | rfl
    · exact .inr ⟨i, hlt, h⟩
    · exact .inl h
  · rintro (h | ⟨i, hi, h⟩)
    · exact ⟨n, Nat.lt_succ_self n, h⟩
    · exact ⟨i, Nat.lt_succ_of_lt hi, h⟩

/-- Before `packet_index` starts over, that can only be the first word. -/
theorem headerBefore_iff_of_le (hn : n ≤ 2 ^ 32) :
    HeaderBefore w n ↔ 0 < n ∧ w 0 = Regs.header := by
  constructor
  · rintro ⟨i, hi, hdvd, hw⟩
    obtain rfl := Nat.eq_zero_of_dvd_of_lt hdvd (Nat.lt_of_lt_of_le hi hn)
    exact ⟨hi, hw⟩
  · exact fun ⟨hpos, hw⟩ ↦ ⟨0, hpos, Nat.dvd_zero _, hw⟩

theorem ofNat_eq_zero_iff : BitVec.ofNat 32 n = 0 ↔ 2 ^ 32 ∣ n := by
  rw [← BitVec.toNat_inj, BitVec.toNat_ofNat, Nat.dvd_iff_mod_eq_zero]
  rfl

/-- **The packet is valid from a header to its end.** -/
theorem after_valid_iff : (after c w n).valid = true ↔ HeaderBefore w n := by
  induction n with
  | zero =>
    refine ⟨fun h ↦ absurd h Bool.false_ne_true, ?_⟩
    rintro ⟨i, hi, -⟩
    exact absurd hi (Nat.not_lt_zero i)
  | succ n ih =>
    rw [after, read, after_index, headerBefore_succ, ← ih, ← ofNat_eq_zero_iff]
    by_cases h : BitVec.ofNat 32 n = 0 ∧ w n = Regs.header <;> simp [h]

end Parser

/-! ### What a word does, by its number -/

section load

variable (c : Config) (x : BitVec 32) {n : ℕ}

theorem ofNat_eq_iff {m : ℕ} (hn : n < 2 ^ 32) (hm : m < 2 ^ 32) :
    BitVec.ofNat 32 n = BitVec.ofNat 32 m ↔ n = m := by
  rw [← BitVec.toNat_inj, BitVec.toNat_ofNat, BitVec.toNat_ofNat, Nat.mod_eq_of_lt hn,
    Nat.mod_eq_of_lt hm]

/-- Words other than 1 to 4 do nothing. -/
theorem Config.load_other (hn : n < 2 ^ 32) (h0 : n = 0 ∨ 4 < n) :
    c.load (BitVec.ofNat 32 n) x = c := by
  have h : ∀ m, 0 < m → m < 5 → BitVec.ofNat 32 n ≠ BitVec.ofNat 32 m := fun m h1 h2 h3 ↦ by
    have := (ofNat_eq_iff hn (by omega)).mp h3
    omega
  have h1 : BitVec.ofNat 32 n ≠ 1 := h 1 (by omega) (by omega)
  have h2 : BitVec.ofNat 32 n ≠ 2 := h 2 (by omega) (by omega)
  have h3 : BitVec.ofNat 32 n ≠ 3 := h 3 (by omega) (by omega)
  have h4 : BitVec.ofNat 32 n ≠ 4 := h 4 (by omega) (by omega)
  rw [Config.load, if_neg h1, if_neg h2, if_neg h3, if_neg h4]

theorem Config.load_one : c.load (BitVec.ofNat 32 1) x = { c with packetsToSend := x } := rfl

theorem Config.load_two :
    c.load (BitVec.ofNat 32 2) x =
      { c with chSrc := fun k ↦ if k.val < 4 then byteOf x k.val else c.chSrc k } := rfl

theorem Config.load_three :
    c.load (BitVec.ofNat 32 3) x =
      { c with chSrc := fun k ↦ if k.val < 4 then c.chSrc k else byteOf x (k.val - 4) } := rfl

theorem Config.load_four :
    c.load (BitVec.ofNat 32 4) x = { c with userLed := ~~~(x.extractLsb' 0 4) } := rfl

end load

/-! ### What a burst does -/

/-- The configuration after `n` words of a command: the fields of the words that have come are
taken from them, the others are as before. -/
def Config.received (c : Config) (w : ℕ → BitVec 32) (n : ℕ) : Config where
  packetsToSend := if 1 < n then w 1 else c.packetsToSend
  chSrc k :=
    if k.val < 4 then if 2 < n then byteOf (w 2) k.val else c.chSrc k
    else if 3 < n then byteOf (w 3) (k.val - 4) else c.chSrc k
  userLed := if 4 < n then ~~~((w 4).extractLsb' 0 4) else c.userLed

section received

variable {c : Config} {w : ℕ → BitVec 32} {n : ℕ}

theorem Config.received_one : c.received w 1 = c := by
  ext <;> simp [Config.received]

/-- One word more. -/
theorem Config.received_succ (hpos : 0 < n) (hn : n < 2 ^ 32) :
    c.received w (n + 1) = (c.received w n).load (BitVec.ofNat 32 n) (w n) := by
  obtain rfl | rfl | rfl | rfl | h4 : n = 1 ∨ n = 2 ∨ n = 3 ∨ n = 4 ∨ 4 < n := by omega
  · rfl
  · refine Config.ext rfl (funext fun k ↦ ?_) rfl
    simp [Config.load_two, Config.received]
  · refine Config.ext rfl (funext fun k ↦ ?_) rfl
    rw [Config.load_three]
    by_cases hk : k.val < 4 <;> simp [Config.received, hk]
  · rfl
  · rw [Config.load_other _ _ hn (.inr h4)]
    have hlt : ∀ m, m ≤ 4 → (m < n + 1 ↔ m < n) := fun m hm ↦ by omega
    simp only [Config.received, hlt 1 (by omega), hlt 2 (by omega), hlt 3 (by omega),
      hlt 4 (by omega)]

namespace Parser

theorem after_valid (h0 : w 0 = Regs.header) (hn : 0 < n) : (after c w n).valid = true :=
  after_valid_iff.mpr ⟨0, hn, Nat.dvd_zero _, h0⟩

/-- **A burst that starts with the header loads the configuration**, as long as `packet_index`
does not wrap. -/
theorem after_config (h0 : w 0 = Regs.header) (hpos : 0 < n) (hn : n ≤ 2 ^ 32) :
    (after c w n).config = c.received w n := by
  induction n with
  | zero => omega
  | succ n ih =>
    rw [after, read, parse]
    rcases Nat.eq_zero_or_pos n with rfl | hpos'
    · exact Config.received_one.symm
    · rw [if_pos (after_valid h0 hpos'), ih hpos' (by omega), after_index,
        Config.received_succ hpos' (by omega)]

end Parser

end received

/-! ## The parser in a run -/

/-- The parser's registers in cycle `t`. -/
def parserAt (inp : ℕ → Pins) (t : ℕ) : Parser where
  index := (regs inp t).packetIndex
  valid := (regs inp t).validPacket
  config := config inp t

section run

variable {inp : ℕ → Pins} {t s L : ℕ}

theorem slrdD3_succ : (regs inp (t + 3)).slrdD3 = (regs inp t).slrd := rfl

theorem readData_succ :
    (regs inp (t + 3)).readData = if SlrdLow inp t then dq inp (t + 2) else 0 := rfl

theorem readReady_iff : (regs inp (t + 3)).readReady = true ↔ SlrdLow inp t := by
  rw [Regs.readReady, slrdD3_succ, beq_iff_eq, SlrdLow]

/-- Three cycles after a strobe the parser takes the word `DQ` had two cycles after it. -/
theorem parserAt_of_slrdLow (h : SlrdLow inp t) :
    parserAt inp (t + 4) = (parserAt inp (t + 3)).read (dq inp (t + 2)) := by
  have hr : (regs inp (t + 3)).readReady = true := readReady_iff.mpr h
  have hd : (regs inp (t + 3)).readData = dq inp (t + 2) := by rw [readData_succ, if_pos h]
  refine Parser.ext ?_ ?_ ?_
  · exact if_pos hr
  · show (regs inp (t + 3)).validPacketNext = _
    rw [Regs.validPacketNext, hr, hd]
    simp only [Bool.not_true, Bool.false_eq_true, if_false, true_and]
    rfl
  · show (regs inp (t + 3)).configNext = _
    rw [Regs.configNext, hd]
    rfl

/-- Three cycles after a cycle without a strobe the parser is reset, taking 0 for a word. -/
theorem parserAt_of_not_slrdLow (h : ¬ SlrdLow inp t) :
    parserAt inp (t + 4) = (parserAt inp (t + 3)).idle := by
  have hr : (regs inp (t + 3)).readReady = false := by
    rw [← Bool.not_eq_true, readReady_iff]
    exact h
  have hd : (regs inp (t + 3)).readData = 0 := by rw [readData_succ, if_neg h]
  refine Parser.ext ?_ ?_ ?_
  · show (regs inp (t + 3)).packetIndexNext = _
    rw [Regs.packetIndexNext, hr]
    rfl
  · show (regs inp (t + 3)).validPacketNext = _
    rw [Regs.validPacketNext, hr]
    rfl
  · show (regs inp (t + 3)).configNext = _
    rw [Regs.configNext, hd]
    rfl

/-- **Without strobes nothing changes the configuration**, but for the one step the parser takes
after the last word. -/
theorem parserAt_of_quiet (hst : s + 4 ≤ t) (hq : ∀ u, s ≤ u → u + 4 ≤ t → ¬ SlrdLow inp u) :
    parserAt inp t = { index := 0, valid := false, config := config inp (s + 4) } := by
  induction t with
  | zero => omega
  | succ t ih =>
    obtain ⟨u, rfl⟩ : ∃ u, t = u + 3 := ⟨t - 3, by omega⟩
    have hidle := parserAt_of_not_slrdLow (hq u (by omega) (by omega))
    rcases Nat.eq_or_lt_of_le hst with heq | hlt
    · obtain rfl : s = u := by omega
      exact Parser.ext (by rw [hidle]; rfl) (by rw [hidle]; rfl) rfl
    · rw [hidle, ih (by omega) fun v h1 h2 ↦ hq v h1 (by omega)]
      rfl

theorem config_of_quiet (hst : s + 4 ≤ t) (hq : ∀ u, s ≤ u → u + 4 < t → ¬ SlrdLow inp u) :
    config inp t = config inp (s + 4) := by
  rcases Nat.eq_or_lt_of_le hst with rfl | hlt
  · rfl
  · obtain ⟨v, rfl⟩ : ∃ v, t = v + 1 := ⟨t - 1, by omega⟩
    have hv := parserAt_of_quiet (s := s) (t := v) (by omega) fun u h1 h2 ↦ hq u h1 (by omega)
    have hvalid : (regs inp v).validPacket = false := congrArg Parser.valid hv
    have hconf : config inp v = config inp (s + 4) := congrArg Parser.config hv
    rw [config_succ, Regs.configNext, hvalid, ← hconf]
    rfl

/-- **The parser follows the words.**  `i` words into a burst, three cycles late, the registers are
those of the word-level parser started on the configuration from before the burst. -/
theorem parserAt_stretch {n : ℕ} (h : Stretch (SlrdLow inp) t n) (hr : Rises (SlrdLow inp) t) :
    ∀ i, i ≤ n → parserAt inp (t + i + 3) = Parser.after (config inp t) (word inp t) i := by
  intro i hi
  induction i with
  | zero =>
    obtain ⟨s, rfl⟩ : ∃ s, t = s + 4 := ⟨t - 4, by have := four_le_of_rises hr; omega⟩
    refine parserAt_of_quiet (by omega) fun u h1 h2 ↦ ?_
    exact quiet_before_rises hr (by omega) (by omega)
  | succ i ih =>
    rw [show t + (i + 1) + 3 = t + i + 4 by omega, parserAt_of_slrdLow (h.holds i (by omega)),
      ih (by omega)]
    rfl

/-- **What a burst leaves behind.**  From four cycles after its end until the words of the next
burst reach the parser, the configuration is what the burst made of it, the parser's last step
with 0 for a word included. -/
theorem ReadBurst.config_after (h : ReadBurst inp t L) {u : ℕ} (hu : t + L + 4 ≤ u)
    (hq : ∀ v, t + L ≤ v → v + 4 < u → ¬ SlrdLow inp v) :
    config inp u = (Parser.after (config inp t) (word inp t) L).idle.config := by
  have hL := parserAt_stretch h.toStretch (Burst.rises h) L (Nat.le_refl L)
  rw [config_of_quiet hu hq, ← hL, ← parserAt_of_not_slrdLow h.after]
  rfl

/-- The first strobe after a quiet stretch is a rising edge. -/
theorem ReadBurst.exists_next (h : ReadBurst inp t L) {v : ℕ} (hv : t + L ≤ v)
    (hlow : SlrdLow inp v) : ∃ r, t + L + 4 ≤ r ∧ r ≤ v ∧ Rises (SlrdLow inp) r := by
  obtain ⟨r, h1, h2, hr, -⟩ := exists_rises h.after hlow hv
  refine ⟨r, ?_, h2, hr⟩
  by_contra hlt
  exact h.quiet_after (by omega) (by omega) hr.holds

/-- The configuration inside a burst and in the three cycles after it. -/
theorem config_stretch {n : ℕ} (h : Stretch (SlrdLow inp) t n) (hr : Rises (SlrdLow inp) t)
    {i : ℕ} (hi : i ≤ n) :
    config inp (t + i + 3) = (Parser.after (config inp t) (word inp t) i).config :=
  congrArg Parser.config (parserAt_stretch h hr i hi)

end run

end Fpga
end Usb3FpgaCard
