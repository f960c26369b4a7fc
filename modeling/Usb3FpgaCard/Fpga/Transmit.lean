import Usb3FpgaCard.Fpga.Phases

/-!
# Write bursts

A write burst begins with a *launch*, the last cycle of `sm_wait_flaga`: `write_delay_cnt` is
loaded there for the last time, from the value `packets_to_send` has in that cycle.  The counter
keeps still through `sm_wait_flagb` and then holds the state machine in `sm_write` until it is 0,
so everything about the burst is fixed at its launch.

`exists_launch` finds the launch of any cycle in `sm_write`, `WritePhase` is what follows from
there, and `WritePhase.writeBurst` is the burst an observer sees, one cycle late.
-/

set_option autoImplicit false

namespace Usb3FpgaCard
namespace Fpga

open Clocked

variable {inp : ℕ → Pins} {l b u : ℕ}

/-- Cycle `l` is the last of a wait for `FLAGA`. -/
structure Launch (inp : ℕ → Pins) (l : ℕ) : Prop where
  /-- The state machine still waits. -/
  waitFlaga : sm inp l = .smWaitFlaga
  /-- It goes on to `FLAGB`. -/
  waitFlagb : sm inp (l + 1) = .smWaitFlagb

instance (inp : ℕ → Pins) (l : ℕ) : Decidable (Launch inp l) :=
  decidable_of_iff (sm inp l = .smWaitFlaga ∧ sm inp (l + 1) = .smWaitFlagb)
    ⟨fun h ↦ ⟨h.1, h.2⟩, fun h ↦ ⟨h.1, h.2⟩⟩

/-- The packet count a launch in cycle `l` is for. -/
def packetCount (inp : ℕ → Pins) (l : ℕ) : BitVec 32 := (config inp l).packetsToSend

/-- The number of cycles the state machine spends in `sm_write` when `write_delay_cnt` has been
loaded for `n` packets. -/
@[irreducible] def wordCount (n : BitVec 32) : ℕ := ((n <<< 12) - 1).toNat + 1

/-- **A packet is 4096 words.**  At `2 ^ 20` packets the shift overflows to 0 and the counter
starts from its largest value, which is still right. -/
theorem wordCount_eq {n : BitVec 32} (h1 : 1 ≤ n.toNat) (h2 : n.toNat ≤ 2 ^ 20) :
    wordCount n = 4096 * n.toNat := by
  rw [wordCount, BitVec.toNat_sub, BitVec.toNat_shiftLeft, Nat.shiftLeft_eq,
    show (1 : BitVec 32).toNat = 1 from rfl]
  omega

theorem wordCount_pos (n : BitVec 32) : 0 < wordCount n := by
  rw [wordCount]
  exact Nat.succ_pos _

/-! ## From the launch to the last word -/

theorem Launch.writeDelayCnt (h : Launch inp l) :
    (regs inp (l + 1)).writeDelayCnt = (packetCount inp l <<< 12) - 1 := by
  rw [writeDelayCnt_succ, if_pos h.waitFlaga, packetCount]

theorem writeDelayCnt_of_smWaitFlagb (h : sm inp u = .smWaitFlagb) :
    (regs inp (u + 1)).writeDelayCnt = (regs inp u).writeDelayCnt := by
  rw [writeDelayCnt_succ, if_neg (by simp [h]), if_neg (by simp [h])]

theorem writeDelayCnt_step (h : sm inp u = .smWrite) (hc : (regs inp u).writeDelayCnt ≠ 0) :
    sm inp (u + 1) = .smWrite ∧
      (regs inp (u + 1)).writeDelayCnt = (regs inp u).writeDelayCnt - 1 := by
  refine ⟨by rw [sm_next_smWrite h, if_neg hc], ?_⟩
  rw [writeDelayCnt_succ, if_neg (by simp [h]), if_pos ⟨h, bitVec_pos_iff.mpr hc⟩]

/-- The states between the end of a read burst that is answered and the end of the answer. -/
def SmState.Answering (s : SmState) : Prop :=
  s = .smWaitFlaga ∨ s = .smWaitFlagb ∨ s = .smWrite ∨ s = .smWriteWrDelay

theorem SmState.Answering.not_read {s : SmState} (h : s.Answering) :
    s ≠ .smRead ∧ s ≠ .smReadRdAndOeDelay ∧ s ≠ .smIdle := by
  rcases h with rfl | rfl | rfl | rfl <;> simp

theorem not_slrdLow_of_answering (h : (sm inp u).Answering) : ¬ SlrdLow inp u := by
  have := h.not_read
  rw [slrdLow_iff]
  tauto

/-- The next read comes from `sm_wait_flagd`, not from the end of an answer. -/
theorem not_slrdLow_succ_of_answering (h : (sm inp u).Answering) : ¬ SlrdLow inp (u + 1) := by
  rw [slrdLow_iff]
  rintro (hs | hs)
  · rcases (hs ▸ sm_edge inp u).to_smRead with hu | hu <;> simp [hu, SmState.Answering] at h
  · rcases (hs ▸ sm_edge inp u).to_smReadRdAndOeDelay with hu | hu <;>
      simp [hu, SmState.Answering] at h

/-- The launch in cycle `l` has led to `sm_write` in cycle `b`, after a wait for `FLAGB`. -/
structure WritePhase (inp : ℕ → Pins) (l b : ℕ) : Prop where
  /-- The launch. -/
  launch : Launch inp l
  /-- The launch comes first. -/
  lt : l + 1 < b
  /-- The wait for `FLAGB`. -/
  wait : ∀ u, l < u → u < b → sm inp u = .smWaitFlagb
  /-- The first cycle in `sm_write`. -/
  write : sm inp b = .smWrite

/-- With `FLAGB` high, the wait for it is one cycle. -/
theorem Launch.writePhase (h : Launch inp l) (hb : (inp l).flagb = true) :
    WritePhase inp l (l + 2) where
  launch := h
  lt := by omega
  wait u h1 h2 := by
    obtain rfl : u = l + 1 := by omega
    exact h.waitFlagb
  write := by rw [sm_next_smWaitFlagb h.waitFlagb, flagbD_succ, if_pos hb]

/-- **Every word has a launch.** -/
theorem exists_launch (h : sm inp u = .smWrite) :
    ∃ l b, WritePhase inp l b ∧ b ≤ u ∧ ∀ v, b ≤ v → v ≤ u → sm inp v = .smWrite := by
  obtain ⟨c, hbu, hbefore, hb, hwrite⟩ := exists_enters (P := fun v ↦ sm inp v = .smWrite)
    (by simp [sm_zero]) h
  have hc : sm inp c = .smWaitFlagb := (hb.holds ▸ sm_edge inp c).to_smWrite.resolve_right hbefore
  obtain ⟨l, hkc, hbefore', hk, hwait⟩ := exists_enters (P := fun v ↦ sm inp v = .smWaitFlagb)
    (by simp [sm_zero]) hc
  have hl : sm inp l = .smWaitFlaga :=
    (hk.holds ▸ sm_edge inp l).to_smWaitFlagb.resolve_right hbefore'
  exact ⟨l, c + 1, ⟨⟨hl, hk.holds⟩, by omega, fun v h1 h2 ↦ hwait v (by omega) (by omega),
    hb.holds⟩, hbu, hwrite⟩

namespace WritePhase

variable (h : WritePhase inp l b)
include h

/-- A launch leads to `sm_write` once. -/
theorem eq {b' : ℕ} (h' : WritePhase inp l b') : b = b' := by
  have hlt := h.lt
  have hlt' := h'.lt
  rcases Nat.lt_trichotomy b b' with hb | rfl | hb
  · exact absurd ((h'.wait b (by omega) hb).symm.trans h.write) (by simp)
  · rfl
  · exact absurd ((h.wait b' (by omega) hb).symm.trans h'.write) (by simp)

/-- The counter is what the launch made it. -/
theorem writeDelayCnt_start : (regs inp b).writeDelayCnt = (packetCount inp l <<< 12) - 1 := by
  rw [← h.launch.writeDelayCnt]
  refine eq_of_stable (f := fun v ↦ (regs inp v).writeDelayCnt) (Nat.le_of_lt h.lt) fun v h1 h2 ↦ ?_
  exact writeDelayCnt_of_smWaitFlagb (h.wait v (by omega) h2)

/-- **In `sm_write` the counter tells how many words are left.** -/
theorem run {i : ℕ} (hi : i < wordCount (packetCount inp l)) :
    sm inp (b + i) = .smWrite ∧
      (regs inp (b + i)).writeDelayCnt.toNat + i + 1 = wordCount (packetCount inp l) := by
  have hrun := countdown (P := fun v ↦ sm inp v = .smWrite)
    (c := fun v ↦ (regs inp v).writeDelayCnt) (fun _ ↦ writeDelayCnt_step) h.write i
  rw [h.writeDelayCnt_start] at hrun
  rw [wordCount] at hi ⊢
  obtain ⟨hw, hc⟩ := hrun (by omega)
  exact ⟨hw, by omega⟩

theorem sm_write {v : ℕ} (hbv : b ≤ v) (hv : v < b + wordCount (packetCount inp l)) :
    sm inp v = .smWrite := by
  have := (h.run (i := v - b) (by omega)).1
  rwa [Nat.add_sub_cancel' hbv] at this

theorem sm_end : sm inp (b + wordCount (packetCount inp l)) = .smWriteWrDelay := by
  obtain ⟨m, hm⟩ : ∃ m, wordCount (packetCount inp l) = m + 1 :=
    ⟨_, (Nat.sub_add_cancel (wordCount_pos _)).symm⟩
  obtain ⟨hw, hc⟩ := h.run (i := m) (by omega)
  have h0 : (regs inp (b + m)).writeDelayCnt = 0 := BitVec.eq_of_toNat_eq (by simp; omega)
  rw [hm, ← Nat.add_assoc, sm_next_smWrite hw, if_pos h0]

/-- From the launch to its last word the state machine does nothing else. -/
theorem answering {v : ℕ} (hlv : l ≤ v) (hv : v ≤ b + wordCount (packetCount inp l)) :
    (sm inp v).Answering := by
  rcases Nat.lt_or_ge v b with hlt | hge
  · rcases Nat.eq_or_lt_of_le hlv with rfl | hlt'
    · exact .inl h.launch.waitFlaga
    · exact .inr (.inl (h.wait v hlt' hlt))
  · rcases Nat.eq_or_lt_of_le hv with rfl | hlt'
    · exact .inr (.inr (.inr h.sm_end))
    · exact .inr (.inr (.inl (h.sm_write hge hlt')))

/-- Until it is in `sm_write`, nothing is strobed. -/
theorem not_slwrLow {v : ℕ} (hlv : l ≤ v) (hv : v ≤ b) : ¬ SlwrLow inp v := by
  intro hlow
  obtain ⟨w, rfl, hw⟩ := slwrLow_iff.mp hlow
  rcases Nat.eq_or_lt_of_le hlv with rfl | hlt
  · have hedge := sm_edge inp w
    rw [hw, h.launch.waitFlaga] at hedge
    cases hedge
  · rcases Nat.eq_or_lt_of_le (Nat.le_of_lt_succ hlt) with rfl | hlt'
    · rw [h.launch.waitFlaga] at hw
      simp at hw
    · rw [h.wait w hlt' hv] at hw
      simp at hw

theorem sm_idle : sm inp (b + wordCount (packetCount inp l) + 1) = .smIdle :=
  sm_next_smWriteWrDelay h.sm_end

/-- **The burst seen from outside**, one cycle after the state machine. -/
theorem writeBurst : WriteBurst inp (b + 1) (wordCount (packetCount inp l)) where
  before v hv := by
    obtain rfl : v = b := by omega
    obtain ⟨c, rfl⟩ : ∃ c, v = c + 1 := ⟨v - 1, by have := h.lt; omega⟩
    rw [slwrLow_succ, h.wait c (by have := h.lt; omega) (by omega)]
    simp
  holds i hi := by
    rw [show b + 1 + i = b + i + 1 by omega, slwrLow_succ]
    exact (h.run hi).1
  pos := wordCount_pos _
  after := by
    rw [show b + 1 + wordCount (packetCount inp l) = b + wordCount (packetCount inp l) + 1 by omega,
      slwrLow_succ, h.sm_end]
    simp

end WritePhase

/-- **Every write burst is that of a launch.** -/
theorem WriteBurst.exists_launch {a M : ℕ} (h : WriteBurst inp a M) :
    ∃ l b, WritePhase inp l b ∧ a = b + 1 ∧ M = wordCount (packetCount inp l) := by
  obtain ⟨u, rfl, hu⟩ := slwrLow_iff.mp (Burst.rises h).holds
  obtain ⟨l, b, hw, hbu, hall⟩ := Fpga.exists_launch hu
  have hb : b = u := by
    refine Nat.le_antisymm hbu (Nat.le_of_succ_le_succ ?_)
    refine (Burst.rises h).le_of_holds (Nat.le_refl (u + 1)) fun v h1 h2 ↦ ?_
    obtain ⟨w, rfl⟩ : ∃ w, v = w + 1 := ⟨v - 1, by omega⟩
    exact slwrLow_succ.mpr (hall w (by omega) (by omega))
  subst hb
  exact ⟨l, b, hw, rfl, Burst.length_unique h hw.writeBurst⟩

/-! ## Which read burst is being answered -/

/-- The state machine only starts to answer in `sm_wait_flaga`, from `sm_read_oe_delay`. -/
theorem SmEdge.answering {s s' : SmState} (h : SmEdge s s') (hs : ¬ s.Answering)
    (hs' : s'.Answering) : s = .smReadOeDelay ∧ s' = .smWaitFlaga := by
  cases h <;> simp_all [SmState.Answering]

/-- A cycle in `sm_read_oe_delay` is one of the three after a read burst. -/
theorem exists_readBurst_of_smReadOeDelay (h : sm inp u = .smReadOeDelay) :
    ∃ t L, ReadBurst inp t L ∧ t + L ≤ u ∧ u < t + L + 3 := by
  obtain ⟨c, hxu, hbefore, hx, hoe⟩ := exists_enters (P := fun v ↦ sm inp v = .smReadOeDelay)
    (by simp [sm_zero]) h
  have hc : sm inp c = .smReadRdAndOeDelay :=
    (hx.holds ▸ sm_edge inp c).to_smReadOeDelay.resolve_right hbefore
  obtain ⟨t, ht0, htc, ht, hlow⟩ := exists_rises (P := SlrdLow inp) (s := 0) not_slrdLow_zero
    (slrdLow_iff.mpr (.inr hc)) (Nat.zero_le c)
  have hb : ReadBurst inp t (c + 1 - t) :=
    { before := ht.before
      holds := fun i hi ↦ hlow (t + i) (by omega) (by omega)
      pos := by omega
      after := by
        rw [show t + (c + 1 - t) = c + 1 by omega, slrdLow_iff, hx.holds]
        simp }
  refine ⟨t, c + 1 - t, hb, by omega, ?_⟩
  by_contra hlt
  have hleave := hb.sm_leave
  rw [show t + (c + 1 - t) + 3 = c + 4 by omega, hoe (c + 4) (by omega) (by omega)] at hleave
  split at hleave <;> simp at hleave

/-- **Whatever is sent answers a read burst**: before any cycle in which the state machine is
answering there is a read burst after which it has done nothing else. -/
theorem exists_readBurst_of_answering (h : (sm inp u).Answering) :
    ∃ t L, ReadBurst inp t L ∧ t + L + 3 ≤ u ∧ sm inp (t + L + 3) = .smWaitFlaga ∧
      ∀ v, t + L + 3 ≤ v → v ≤ u → (sm inp v).Answering := by
  obtain ⟨c, heu, hbefore, he, hall⟩ := exists_enters (P := fun v ↦ (sm inp v).Answering)
    (by simp [SmState.Answering, sm_zero]) h
  obtain ⟨hc, hc'⟩ := (sm_edge inp c).answering hbefore he.holds
  obtain ⟨t, L, hb, h1, h2⟩ := exists_readBurst_of_smReadOeDelay hc
  have hce : c + 1 = t + L + 3 := by
    by_contra hne
    rw [hb.sm_oe (u := c + 1) (by omega) (by omega)] at hc'
    simp at hc'
  rw [hce] at hc' hall
  exact ⟨t, L, hb, by omega, hc', hall⟩

/-- While the state machine does nothing but answer there is no second launch. -/
theorem WritePhase.launch_eq {e : ℕ} (hp : WritePhase inp e b) (h : Launch inp l) (hle : e ≤ l)
    (hans : ∀ v, e ≤ v → v ≤ l → (sm inp v).Answering) : l = e := by
  have hl := h.waitFlaga
  rcases Nat.eq_or_lt_of_le hle with heq | hlt
  · exact heq.symm
  · rcases Nat.lt_or_ge l b with hlb | hbl
    · rw [hp.wait l hlt hlb] at hl
      simp at hl
    · rcases Nat.lt_or_ge l (b + wordCount (packetCount inp e)) with hlw | hwl
      · rw [hp.sm_write hbl hlw] at hl
        simp at hl
      · rcases Nat.eq_or_lt_of_le hwl with rfl | hlt'
        · rw [hp.sm_end] at hl
          simp at hl
        · have := hp.lt
          exact absurd hp.sm_idle (hans _ (by omega) hlt').not_read.2.2

/-- **One read burst has at most one answer**: in a run in which nothing else is read, the launch
right after it is the only one. -/
theorem launch_unique {t L : ℕ} (hone : ∀ s, Rises (SlrdLow inp) s → s = t)
    (hb : ReadBurst inp t L) (hp : WritePhase inp (t + L + 3) b) (h : Launch inp l) :
    l = t + L + 3 := by
  obtain ⟨s, L', hb', hle, -, hans⟩ := exists_readBurst_of_answering (.inl h.waitFlaga)
  obtain rfl := hone s (Burst.rises hb')
  obtain rfl := Burst.length_unique hb hb'
  exact hp.launch_eq h hle hans

end Fpga
end Usb3FpgaCard
