import Usb3FpgaCard.Fpga.Command
import Usb3FpgaCard.Fpga.Fields

/-!
# Bursts that are not commands

Two registers decide what a burst may do: `valid_packet` while it is read, `packets_to_send` when
it is over.  Neither is quite right for a burst that is not a complete command.

* The transmit decision reads `packets_to_send`, which outlives the command that set it, and not
  `valid_packet`, which is gone by then.  A burst without the header is therefore answered exactly
  when the last command asked for packets, and `allSolicited_iff` gives the condition under which
  everything sent was asked for.
* "Parse packet" is the one block of the parser that does not look at `read_ready`, so it takes a
  word of zeros after the last one.  A command cut off after 3 or 4 words clears `ch_src[7:4]` or
  the LEDs.  Apart from that only words beyond number 2^32 can do harm (`fieldsFromWords_iff`).
-/

set_option autoImplicit false

namespace Usb3FpgaCard
namespace Fpga

open Clocked

variable {inp : ℕ → Pins} {t L n u : ℕ}

/-! ## Unsolicited data -/

/-- Nothing is left to send after `n` words of a burst: the last of them that sets the packet count
is 0, or none of them sets it and it was 0 before. -/
def NothingLeft (c : Config) (w : ℕ → BitVec 32) (n : ℕ) : Prop :=
  (c.packetsToSend = 0 ∧ ∀ i, i < n → ¬ Field.packetsToSend.SetBy w i) ∨
    ∃ i, Field.packetsToSend.LastSet w n i ∧ w i = 0

theorem nothingLeft_iff {c : Config} {w : ℕ → BitVec 32} :
    NothingLeft c w n ↔ (Parser.after c w n).config.packetsToSend = 0 := by
  constructor
  · rintro (⟨hc, hno⟩ | ⟨i, hi, h0⟩)
    · exact (Parser.get_after_of_not_setBy hno).trans hc
    · exact (Parser.get_after_of_lastSet hi).trans h0
  · intro h
    rcases Field.packetsToSend.exists_lastSet w n with ⟨i, hi⟩ | hno
    · exact .inr ⟨i, hi, (Parser.get_after_of_lastSet hi).symm.trans h⟩
    · exact .inl ⟨(Parser.get_after_of_not_setBy hno).symm.trans h, hno⟩

/-- Before `packet_index` starts over, a command leaves its own count and any other burst the one
there was. -/
theorem nothingLeft_iff_of_le {c : Config} {w : ℕ → BitVec 32} (h1 : 1 < n) (hn : n ≤ 2 ^ 32) :
    NothingLeft c w n ↔ if w 0 = Regs.header then w 1 = 0 else c.packetsToSend = 0 := by
  rw [nothingLeft_iff]
  by_cases h0 : w 0 = Regs.header
  · rw [if_pos h0, Parser.after_config h0 (Nat.zero_lt_of_lt h1) hn, Config.received]
    simp only [if_pos h1]
  · have hno : ∀ i, i < n → ¬ Field.packetsToSend.SetBy w i := fun i hi hs ↦
      h0 ((Field.setBy_iff_of_le (Nat.le_trans (Nat.le_of_lt hi) hn)).mp hs).1
    have hget : (Parser.after c w n).config.packetsToSend = c.packetsToSend :=
      Parser.get_after_of_not_setBy hno
    rw [if_neg h0, hget]

/-- **Which bursts are answered**: those after which something is left to send.  The last word is
too late to be looked at. -/
theorem ReadBurst.answered_iff (h : ReadBurst inp t L) :
    sm inp (t + L + 3) = .smWaitFlaga ↔
      ¬ NothingLeft (config inp t) (word inp t) (L - 1) := by
  have hpos := h.pos
  rw [h.sm_leave, nothingLeft_iff, show t + L + 2 = t + (L - 1) + 3 by omega,
    config_stretch h.toStretch (Burst.rises h) (Nat.sub_le L 1)]
  split <;> simp_all

/-- Data is sent only in answer to a command that asks for it. -/
structure Solicited (inp : ℕ → Pins) : Prop where
  /-- `sm_wait_flaga` is entered only after such a command. -/
  enters : ∀ u, sm inp u ≠ .smWaitFlaga → sm inp (u + 1) = .smWaitFlaga →
    ∃ t L, ReadBurst inp t L ∧ u + 1 = t + L + 3 ∧ word inp t 0 = Regs.header ∧ word inp t 1 ≠ 0
  /-- `SLWR` is strobed only after such a command, and before the next read. -/
  strobes : ∀ u, SlwrLow inp u →
    ∃ t L, ReadBurst inp t L ∧ t + L ≤ u ∧ Quiet inp (t + L) u ∧
      word inp t 0 = Regs.header ∧ word inp t 1 ≠ 0

/-- The burst before an entry of `sm_wait_flaga` is the only one that ends there. -/
theorem ReadBurst.eq_of_end_eq {t' L' : ℕ} (h : ReadBurst inp t L) (h' : ReadBurst inp t' L')
    (heq : t + L = t' + L') : t = t' ∧ L = L' := by
  have hpos := h.pos
  have hpos' := h'.pos
  exact Burst.eq_of_mem h h' (u := t + L - 1) (by omega) (by omega) (by omega) (by omega)

/-- **When all data is solicited**: if and only if nothing is left to send after a burst that is not
a command asking for packets. -/
theorem allSolicited_iff :
    Solicited inp ↔
      ∀ t L, ReadBurst inp t L →
        (word inp t 0 = Regs.header ∧ word inp t 1 ≠ 0) ∨
          NothingLeft (config inp t) (word inp t) (L - 1) := by
  constructor
  · intro hs t L h
    refine or_iff_not_imp_right.mpr fun hleft ↦ ?_
    obtain ⟨t', L', h', heq, hcmd⟩ := hs.enters (t + L + 2)
      (by simp [h.sm_oe (u := t + L + 2) (by omega) (by omega)]) (h.answered_iff.mpr hleft)
    obtain ⟨rfl, rfl⟩ := h.eq_of_end_eq h' (by omega)
    exact hcmd
  · intro hall
    have hcmd : ∀ t L, ReadBurst inp t L → sm inp (t + L + 3) = .smWaitFlaga →
        word inp t 0 = Regs.header ∧ word inp t 1 ≠ 0 := fun t L h hsm ↦
      (hall t L h).resolve_right (h.answered_iff.mp hsm)
    refine ⟨fun u hu hu' ↦ ?_, fun u hu ↦ ?_⟩
    · obtain ⟨t, L, h, hle, hsm, hans⟩ := exists_readBurst_of_answering (u := u + 1) (.inl hu')
      have heq : u + 1 = t + L + 3 := by
        by_contra hne
        have hback := (hu' ▸ sm_edge inp u).to_smWaitFlaga
        rcases hans u (by omega) (by omega) with hs | hs | hs | hs <;> simp_all
      exact ⟨t, L, h, heq, hcmd t L h hsm⟩
    · obtain ⟨w, rfl, hsw⟩ := slwrLow_iff.mp hu
      obtain ⟨t, L, h, hle, hsm, hans⟩ := exists_readBurst_of_answering (.inr (.inr (.inl hsw)))
      exact ⟨t, L, h, by omega, h.quiet_of_answering hle hans, hcmd t L h hsm⟩

/-- A command for one packet, cut off after three words, and then a burst of zeros. -/
def staleCount (t : ℕ) : Pins where
  flaga := true
  flagb := true
  flagc := true
  flagd := decide (t ≠ 3 ∧ t ≠ 4111)
  dq := if t = 6 then Regs.header else if t = 7 then 1 else 0
  pb := fun _ ↦ 0
  allCtrReset := false

theorem staleCount_writePhase : WritePhase staleCount 10 12 :=
  Launch.writePhase ⟨by decide, by decide⟩ rfl

theorem staleCount_wordCount : wordCount (packetCount staleCount 10) = 4096 := by
  rw [show packetCount staleCount 10 = 1 by decide, wordCount_eq (by decide) (by decide)]
  rfl

/-- The burst of zeros comes when the first command has been answered. -/
theorem staleCount_readBurst : ReadBurst staleCount 4112 3 := by
  have hidle := staleCount_writePhase.sm_idle
  rw [staleCount_wordCount] at hidle
  exact readBurst_of_flagd (n := 1) hidle rfl Nat.one_pos (by decide) (by decide)

theorem staleCount_config : (config staleCount 4112).packetsToSend = 1 := by
  have hq : config staleCount 4112 = config staleCount 11 := by
    refine config_of_quiet (s := 7) (by omega) fun u h1 h2 ↦ ?_
    rcases Nat.lt_or_ge u 10 with hlt | hge
    · obtain rfl | rfl | rfl : u = 7 ∨ u = 8 ∨ u = 9 := by omega
      all_goals decide
    · exact not_slrdLow_of_answering
        (staleCount_writePhase.answering hge (by rw [staleCount_wordCount]; omega))
  rw [hq]
  decide

/-- **A burst of zeros is answered** with the packet the command before it asked for. -/
theorem not_solicited_staleCount : ¬ Solicited staleCount := by
  intro hs
  have h := staleCount_readBurst
  have h0 : word staleCount 4112 0 ≠ Regs.header := by
    rw [h.word_eq (by omega)]
    decide
  have hsm : sm staleCount (4112 + 3 + 3) = .smWaitFlaga := by
    rw [h.answered_iff, nothingLeft_iff_of_le (by omega) (by omega), if_neg h0, staleCount_config]
    decide
  obtain ⟨t, L, h', heq, hcmd, -⟩ := hs.enters 4117
    (by simp [h.sm_oe (u := 4117) (by omega) (by omega)]) hsm
  obtain ⟨rfl, rfl⟩ := h.eq_of_end_eq h' (by omega)
  exact h0 hcmd

/-! ## Where the configuration comes from -/

/-- At the edge that ends cycle `u`, word `i` of the command being read at that time is known: the
burst at `t` started with the header, `read_ready` is high, and word `i` has come. -/
structure Reads (inp : ℕ → Pins) (u t i : ℕ) : Prop where
  /-- `read_ready` is high. -/
  readReady : (regs inp u).readReady = true
  /-- The burst starts in cycle `t`. -/
  rises : Rises (SlrdLow inp) t
  /-- It has gone on until the strobe `read_ready` answers to. -/
  holds : ∀ v, t ≤ v → v + 3 ≤ u → SlrdLow inp v
  /-- Its first word is the header. -/
  header : word inp t 0 = Regs.header
  /-- Word `i` has come. -/
  comes : t + i + 3 ≤ u

/-- The configuration is written only from words actually read in a command. -/
structure FieldsFromWords (inp : ℕ → Pins) : Prop where
  /-- A field that changes takes its value from the word that carries it. -/
  changes : ∀ u f, (config inp (u + 1)).get f ≠ (config inp u).get f →
    ∃ t, Reads inp u t f.index ∧ (config inp (u + 1)).get f = f.ofWord (word inp t f.index)
  /-- A burst that is over before that word leaves the field alone, until the next burst. -/
  truncated : ∀ t L, ReadBurst inp t L → ∀ f, L ≤ f.index → ∀ u, t ≤ u →
    (∀ v, t + L ≤ v → v + 4 < u → ¬ SlrdLow inp v) → (config inp u).get f = (config inp t).get f

/-- Before the first word can have come, nothing changes. -/
theorem config_of_le_three : ∀ u, u ≤ 3 → config inp (u + 1) = config inp u
  | 0, _ => rfl
  | 1, _ => rfl
  | 2, _ => rfl
  | 3, _ => rfl

/-- Every strobe belongs to a burst. -/
theorem exists_stretch {v : ℕ} (h : SlrdLow inp v) :
    ∃ t i, v = t + i ∧ Rises (SlrdLow inp) t ∧ Stretch (SlrdLow inp) t (i + 1) := by
  obtain ⟨t, -, htv, hr, hall⟩ := exists_rises not_slrdLow_zero h (Nat.zero_le v)
  exact ⟨t, v - t, by omega, hr, hr.before, fun i hi ↦ hall (t + i) (by omega) (by omega)⟩

/-- What a field ought to hold after `n` words of a burst, when it held `x` before: what its own
word says if the burst is a command and the word has come, and `x` otherwise. -/
def Field.own (f : Field) (x : BitVec f.width) (w : ℕ → BitVec 32) (n : ℕ) : BitVec f.width :=
  if w 0 = Regs.header ∧ f.index < n then f.ofWord (w f.index) else x

section own

variable {f : Field} {x : BitVec f.width} {w : ℕ → BitVec 32}

theorem Field.own_of_le (h : n ≤ f.index) : f.own x w n = x :=
  if_neg fun h' ↦ Nat.not_lt_of_le h h'.2

theorem Field.own_succ :
    f.own x w (n + 1) =
      if w 0 = Regs.header ∧ n = f.index then f.ofWord (w n) else f.own x w n := by
  by_cases h : w 0 = Regs.header ∧ n = f.index
  · obtain ⟨h0, rfl⟩ := h
    rw [if_pos ⟨h0, rfl⟩]
    exact if_pos ⟨h0, Nat.lt_succ_self _⟩
  · rw [if_neg h, own, own]
    refine if_congr (and_congr_right fun h0 ↦ ?_) rfl rfl
    have hne : n ≠ f.index := fun hn ↦ h ⟨h0, hn⟩
    omega

/-- The own word of a field sets it in a command. -/
theorem Field.setBy_index (h0 : w 0 = Regs.header) : f.SetBy w f.index := by
  have hlt := f.index_lt
  exact (f.setBy_iff_of_le (by omega)).mpr ⟨h0, rfl⟩

end own

/-- What the parser writes besides the fields of commands does no harm: it finds the field as it
leaves it. -/
structure StrayHarmless (inp : ℕ → Pins) : Prop where
  /-- When `packet_index` has started over, words are taken for others. -/
  wrapped : ∀ t n, Stretch (SlrdLow inp) t (n + 1) → ∀ f : Field, f.SetBy (word inp t) n →
    n ≠ f.index → f.ofWord (word inp t n) = f.own ((config inp t).get f) (word inp t) n
  /-- After the last word comes one of zeros. -/
  past : ∀ t L, ReadBurst inp t L → ∀ f : Field, f.SetBy (word inp t) L →
    f.ofWord 0 = f.own ((config inp t).get f) (word inp t) L

/-- **In bursts of up to 2^32 words** only the word of zeros is left: no command may be cut off
just before a word that would have found its field other than a word of zeros leaves it. -/
theorem strayHarmless_iff_of_le (hle : ∀ t n, Stretch (SlrdLow inp) t n → n ≤ 2 ^ 32) :
    StrayHarmless inp ↔
      ∀ t L, ReadBurst inp t L → word inp t 0 = Regs.header →
        ∀ f : Field, f.index = L → f.ofWord 0 = (config inp t).get f := by
  constructor
  · rintro hs t L h h0 f rfl
    rw [hs.past t _ h f (Field.setBy_index h0), Field.own_of_le (Nat.le_refl _)]
  · refine fun hrest ↦ ⟨fun t n hst f hset hne ↦ ?_, fun t L h f hset ↦ ?_⟩
    · have hn := hle t _ hst
      exact absurd ((f.setBy_iff_of_le (by omega)).mp hset).2 hne
    · obtain ⟨h0, rfl⟩ := (f.setBy_iff_of_le (hle t L h.toStretch)).mp hset
      rw [Field.own_of_le (Nat.le_refl _), hrest t _ h h0 f rfl]

/-- **Word by word**: inside a burst, and three cycles late, a field holds what it ought to, if only
its own word changes it. -/
theorem get_config_of_kept (hst : Stretch (SlrdLow inp) t n) (hr : Rises (SlrdLow inp) t)
    (f : Field)
    (hkept : ∀ i, Stretch (SlrdLow inp) t (i + 1) →
      (config inp (t + i + 3)).get f = f.own ((config inp t).get f) (word inp t) i →
      ¬ (word inp t 0 = Regs.header ∧ i = f.index) →
        (config inp (t + (i + 1) + 3)).get f = (config inp (t + i + 3)).get f) :
    (config inp (t + n + 3)).get f = f.own ((config inp t).get f) (word inp t) n := by
  induction n with
  | zero =>
    rw [config_stretch hst hr (Nat.le_refl 0), Field.own_of_le (Nat.zero_le _)]
    rfl
  | succ n ih =>
    have hn := ih (hst.mono (Nat.le_succ n))
    rw [Field.own_succ]
    split
    case isTrue hown =>
      obtain ⟨h0, rfl⟩ := hown
      rw [config_stretch hst hr (Nat.le_refl _), Parser.get_after_succ,
        if_pos (Field.setBy_index h0)]
    case isFalse hown => rw [hkept n hst hn hown, hn]

/-- If what else is written does no harm, a field holds what it ought to. -/
theorem StrayHarmless.get_config (hs : StrayHarmless inp) (hst : Stretch (SlrdLow inp) t n)
    (hr : Rises (SlrdLow inp) t) (f : Field) :
    (config inp (t + n + 3)).get f = f.own ((config inp t).get f) (word inp t) n := by
  refine get_config_of_kept hst hr f fun i hi hold hown ↦ ?_
  rw [config_stretch hi hr (Nat.le_refl _), Parser.get_after_succ]
  split
  case isTrue hset =>
    rw [hold]
    refine hs.wrapped t i hi f hset fun heq ↦ hown ⟨?_, heq⟩
    have hlt := f.index_lt
    exact ((f.setBy_iff_of_le (by omega)).mp hset).1
  case isFalse => rw [config_stretch hi hr (Nat.le_succ i)]

/-- The edge after the last word leaves it so. -/
theorem StrayHarmless.get_config_idle (hs : StrayHarmless inp) (h : ReadBurst inp t L) (f : Field) :
    (config inp (t + L + 4)).get f = f.own ((config inp t).get f) (word inp t) L := by
  have hL := hs.get_config h.toStretch (Burst.rises h) f
  rw [config_stretch h.toStretch (Burst.rises h) (Nat.le_refl L)] at hL
  rw [h.config_after (Nat.le_refl _) (by omega), Parser.get_idle_after, hL]
  split
  case isTrue hset => exact hs.past t L h f hset
  case isFalse => rfl

/-- **The edge that takes a word** writes the field the word carries, if the burst is a command. -/
theorem StrayHarmless.reads (hs : StrayHarmless inp) {v : ℕ} (h : SlrdLow inp v) (f : Field)
    (hne : (config inp (v + 4)).get f ≠ (config inp (v + 3)).get f) :
    ∃ t, Reads inp (v + 3) t f.index ∧
      (config inp (v + 4)).get f = f.ofWord (word inp t f.index) := by
  obtain ⟨t, i, rfl, hr, hst⟩ := exists_stretch h
  have hold := hs.get_config (hst.mono (Nat.le_succ i)) hr f
  have hnew := hs.get_config hst hr f
  rw [← Nat.add_assoc t, Nat.add_right_comm] at hnew
  rw [hold, hnew, Field.own_succ] at hne
  rw [hnew, Field.own_succ]
  by_cases hown : word inp t 0 = Regs.header ∧ i = f.index
  · obtain ⟨h0, rfl⟩ := hown
    exact ⟨t, ⟨readReady_iff.mpr h, hr, fun v h1 h2 ↦ hst.holds_at h1 (by omega), h0,
      Nat.le_refl _⟩, if_pos ⟨h0, rfl⟩⟩
  · exact absurd (if_neg hown) hne

/-- A burst that is over before the word that carries a field leaves the field alone. -/
theorem StrayHarmless.truncated (hs : StrayHarmless inp) (h : ReadBurst inp t L) {f : Field}
    (hf : L ≤ f.index) (hu : t ≤ u) (hq : ∀ v, t + L ≤ v → v + 4 < u → ¬ SlrdLow inp v) :
    (config inp u).get f = (config inp t).get f := by
  rcases Nat.lt_or_ge u (t + 4) with hlt | hge
  · have h4 := four_le_of_rises (Burst.rises h)
    obtain ⟨s, rfl⟩ : ∃ s, t = s + 4 := ⟨t - 4, by omega⟩
    rw [config_of_quiet (t := u) (s := s) (by omega) fun v h1 h2 ↦
      quiet_before_rises (Burst.rises h) (by omega) (by omega)]
  rcases Nat.lt_or_ge u (t + L + 4) with hlt | hge'
  · obtain ⟨i, rfl⟩ : ∃ i, u = t + i + 3 := ⟨u - t - 3, by omega⟩
    rw [hs.get_config (h.toStretch.mono (by omega)) (Burst.rises h) f,
      Field.own_of_le (by omega)]
  · rw [config_of_quiet hge' hq, hs.get_config_idle h f, Field.own_of_le hf]

/-- If the configuration is written only from words of commands, a field holds what it ought to. -/
theorem FieldsFromWords.get_config (hs : FieldsFromWords inp) (hst : Stretch (SlrdLow inp) t n)
    (hr : Rises (SlrdLow inp) t) (f : Field) :
    (config inp (t + n + 3)).get f = f.own ((config inp t).get f) (word inp t) n := by
  refine get_config_of_kept hst hr f fun i hi hold hown ↦ ?_
  rw [← Nat.add_assoc t, Nat.add_right_comm]
  by_contra hne
  obtain ⟨t', hreads, heq⟩ := hs.changes _ f hne
  have hcomes := hreads.comes
  obtain rfl : t = t' := by
    refine Nat.le_antisymm ?_ ?_
    · exact hr.le_of_holds (Nat.le_add_right t i) fun v h1 h2 ↦ hreads.holds v h1 (by omega)
    · exact hreads.rises.le_of_holds (t := t + i) (by omega) fun v h1 h2 ↦
        hi.holds_at h1 (by omega)
  -- the word that is written has come before, so the field holds it already
  have hlt : f.index < i :=
    Nat.lt_of_le_of_ne (by omega) fun hi ↦ hown ⟨hreads.header, hi.symm⟩
  exact hne (heq.trans (hold.trans (if_pos ⟨hreads.header, hlt⟩)).symm)

/-- **When the configuration comes from commands alone**: if and only if what else is written does
no harm. -/
theorem fieldsFromWords_iff : FieldsFromWords inp ↔ StrayHarmless inp := by
  constructor
  · refine fun hs ↦ ⟨fun t n hst f hset hne ↦ ?_, fun t L h f hset ↦ ?_⟩
    · have hr : Rises (SlrdLow inp) t := ⟨hst.holds 0 (Nat.succ_pos n), hst.before⟩
      have hnew := hs.get_config hst hr f
      rw [config_stretch hst hr (Nat.le_refl _), Parser.get_after_succ, if_pos hset,
        Field.own_succ, if_neg fun h ↦ hne h.2] at hnew
      exact hnew
    · have hL := hs.get_config h.toStretch (Burst.rises h) f
      have hidle := h.config_after (Nat.le_refl _) (by omega)
      have hsame : (config inp (t + L + 3 + 1)).get f = (config inp (t + L + 3)).get f := by
        by_contra hne
        obtain ⟨t', hreads, -⟩ := hs.changes _ f hne
        exact h.after (readReady_iff.mp hreads.readReady)
      rw [← hL, ← hsame, hidle, Parser.get_idle_after, if_pos hset]
  · intro hs
    refine ⟨fun u f hne ↦ ?_, fun t L h f hf u hu hq ↦ hs.truncated h hf hu hq⟩
    rcases Nat.lt_or_ge u 4 with hlt | hge
    · exact absurd (by rw [config_of_le_three u (Nat.le_of_lt_succ hlt)]) hne
    obtain ⟨v, rfl⟩ : ∃ v, u = v + 1 + 3 := ⟨u - 4, by omega⟩
    by_cases hlow : SlrdLow inp (v + 1)
    · exact hs.reads hlow f hne
    by_cases hlow' : SlrdLow inp v
    · obtain ⟨t, i, rfl, hr, hst⟩ := exists_stretch hlow'
      have hb : ReadBurst inp t (i + 1) := ⟨hst, Nat.succ_pos i, hlow⟩
      exact absurd ((hs.get_config_idle hb f).trans (hs.get_config hst hr f).symm) hne
    · refine absurd ?_ hne
      rw [config_of_quiet (s := v) (t := v + 1 + 3 + 1) (by omega) fun w h1 h2 ↦ ?_]
      obtain rfl : w = v := by omega
      exact hlow'

/-- **A command of three words clears `ch_src[7:4]`.** -/
theorem not_fieldsFromWords_staleCount : ¬ FieldsFromWords staleCount := by
  intro hs
  obtain ⟨t, hr, -⟩ := hs.changes 10 (.chSrc 4) (by decide)
  exact absurd hr.readReady (by decide)

end Fpga
end Usb3FpgaCard
