import Usb3FpgaCard.Fpga.Trace
import Mathlib.Tactic.Tauto

/-!
# How long the state machine stays where

The two delay counters fix the shape of the end of every read burst, whatever the flags do: the
last two strobes come in `sm_read_rd_and_oe_delay`, then `SLOE` stays low for the three cycles of
`sm_read_oe_delay`.  So a read burst has at least three cycles (`ReadBurst.three_le`) and the
decision whether to answer it falls exactly three cycles after its end (`ReadBurst.sm_leave`).

Before a read burst the state machine passes `sm_idle`, `sm_flagc_rcvd` and `sm_wait_flagd`, which
keeps `SLRD` high for at least the four cycles before it (`quiet_before_rises`).
-/

set_option autoImplicit false

namespace Usb3FpgaCard
namespace Fpga

open Clocked

variable {inp : ℕ → Pins} {t L : ℕ}

/-! ## The delay counters -/

theorem rdOeDelayCnt_of_smRead (h : sm inp t = .smRead) :
    (regs inp (t + 1)).rdOeDelayCnt = 1 := by
  rw [rdOeDelayCnt_succ, if_pos h]

theorem rdOeDelayCnt_step (h : sm inp t = .smReadRdAndOeDelay)
    (hc : (regs inp t).rdOeDelayCnt ≠ 0) :
    sm inp (t + 1) = .smReadRdAndOeDelay ∧
      (regs inp (t + 1)).rdOeDelayCnt = (regs inp t).rdOeDelayCnt - 1 := by
  refine ⟨by rw [sm_next_smReadRdAndOeDelay h, if_neg hc], ?_⟩
  rw [rdOeDelayCnt_succ, if_neg (by simp [h]), if_pos ⟨h, bitVec_pos_iff.mpr hc⟩]

theorem oeDelayCnt_of_smReadRdAndOeDelay (h : sm inp t = .smReadRdAndOeDelay) :
    (regs inp (t + 1)).oeDelayCnt = 2 := by
  rw [oeDelayCnt_succ, if_pos h]

theorem oeDelayCnt_step (h : sm inp t = .smReadOeDelay) (hc : (regs inp t).oeDelayCnt ≠ 0) :
    sm inp (t + 1) = .smReadOeDelay ∧
      (regs inp (t + 1)).oeDelayCnt = (regs inp t).oeDelayCnt - 1 := by
  refine ⟨by rw [sm_next_smReadOeDelay h, if_neg hc], ?_⟩
  rw [oeDelayCnt_succ, if_neg (by simp [h]), if_pos ⟨h, bitVec_pos_iff.mpr hc⟩]

/-! ## The start of a read burst -/

/-- A read burst starts in `sm_read`. -/
theorem sm_of_rises (h : Rises (SlrdLow inp) t) : sm inp t = .smRead := by
  rcases slrdLow_iff.mp h.holds with hr | hr
  · exact hr
  · cases t with
    | zero => rw [sm_zero] at hr; exact absurd hr (by simp)
    | succ t =>
      exact absurd (slrdLow_iff.mpr (hr ▸ sm_edge inp t).to_smReadRdAndOeDelay) (h.before t rfl)

/-- The states a read burst is led up to by: going back from `sm_wait_flagd`, they follow the ring
to `sm_idle` and only from there to the end of an earlier transfer. -/
theorem sm_before_rises (h : Rises (SlrdLow inp) (t + 4)) :
    sm inp (t + 3) = .smWaitFlagd ∧
    (sm inp (t + 2) = .smFlagcRcvd ∨ sm inp (t + 2) = .smWaitFlagd) ∧
    (sm inp (t + 1) = .smIdle ∨ sm inp (t + 1) = .smFlagcRcvd ∨ sm inp (t + 1) = .smWaitFlagd) ∧
    (sm inp t = .smIdle ∨ sm inp t = .smReadOeDelay ∨ sm inp t = .smWriteWrDelay ∨
      sm inp t = .smFlagcRcvd ∨ sm inp t = .smWaitFlagd) := by
  have h3 : sm inp (t + 3) = .smWaitFlagd := by
    rcases (sm_of_rises h ▸ sm_edge inp (t + 3)).to_smRead with h3 | h3
    · exact h3
    · exact absurd (slrdLow_iff.mpr (.inl h3)) (h.before (t + 3) rfl)
  have h2 := (h3 ▸ sm_edge inp (t + 2)).to_smWaitFlagd
  have h1 : sm inp (t + 1) = .smIdle ∨ sm inp (t + 1) = .smFlagcRcvd ∨
      sm inp (t + 1) = .smWaitFlagd := by
    rcases h2 with h2 | h2
    · exact .inl (h2 ▸ sm_edge inp (t + 1)).to_smFlagcRcvd
    · exact .inr (h2 ▸ sm_edge inp (t + 1)).to_smWaitFlagd
  refine ⟨h3, h2, h1, ?_⟩
  rcases h1 with h1 | h1 | h1
  · have := (h1 ▸ sm_edge inp t).to_smIdle
    tauto
  · exact .inl (h1 ▸ sm_edge inp t).to_smFlagcRcvd
  · have := (h1 ▸ sm_edge inp t).to_smWaitFlagd
    tauto

theorem sm_one : sm inp 1 = .smIdle := by
  rw [sm_next_smIdle rfl]
  rfl

/-- No read burst starts before cycle 4. -/
theorem four_le_of_rises (h : Rises (SlrdLow inp) t) : 4 ≤ t := by
  have hr := sm_of_rises h
  match t, h with
  | 0, _ => rw [sm_zero] at hr; exact absurd hr (by simp)
  | 1, _ => rw [sm_one] at hr; exact absurd hr (by simp)
  | 2, _ =>
    have := sm_one ▸ hr ▸ sm_edge inp 1
    exact absurd this.to_smRead (by simp)
  | 3, _ =>
    rcases (hr ▸ sm_edge inp 2).to_smRead with h2 | h2
    · exact absurd (sm_one ▸ h2 ▸ sm_edge inp 1).to_smWaitFlagd (by simp)
    · exact absurd (sm_one ▸ h2 ▸ sm_edge inp 1).to_smRead (by simp)
  | t + 4, _ => omega

/-- **`SLRD` is high in the four cycles before a read burst.** -/
theorem quiet_before_rises (h : Rises (SlrdLow inp) t) {u : ℕ} (hu : u < t) (htu : t ≤ u + 4) :
    ¬ SlrdLow inp u := by
  obtain ⟨s, rfl⟩ : ∃ s, t = s + 4 := ⟨t - 4, by have := four_le_of_rises h; omega⟩
  obtain ⟨h3, h2, h1, h0⟩ := sm_before_rises h
  have hcases : u = s ∨ u = s + 1 ∨ u = s + 2 ∨ u = s + 3 := by omega
  rw [slrdLow_iff]
  rcases hcases with rfl | rfl | rfl | rfl
  · rcases h0 with h0 | h0 | h0 | h0 | h0 <;> simp [h0]
  · rcases h1 with h1 | h1 | h1 <;> simp [h1]
  · rcases h2 with h2 | h2 <;> simp [h2]
  · simp [h3]

/-! ## The end of a read burst -/

section readBurst

variable (h : ReadBurst inp t L)
include h

theorem ReadBurst.sm_start : sm inp t = .smRead := sm_of_rises (Burst.rises h)

/-- The strobe that ends a burst is given in `sm_read_rd_and_oe_delay`, with the counter at 0. -/
theorem ReadBurst.sm_last {k : ℕ} (hk : k + 1 = L) :
    sm inp (t + k) = .smReadRdAndOeDelay ∧ (regs inp (t + k)).rdOeDelayCnt = 0 := by
  have hafter : ¬ SlrdLow inp (t + k + 1) := by rw [Nat.add_assoc, hk]; exact h.after
  rcases slrdLow_iff.mp (h.holds k (by omega)) with hr | hr
  · refine absurd (slrdLow_iff.mpr ?_) hafter
    rw [sm_next_smRead hr]
    split <;> simp
  · refine ⟨hr, by_contra fun hc ↦ hafter (slrdLow_iff.mpr ?_)⟩
    rw [sm_next_smReadRdAndOeDelay hr, if_neg hc]
    simp

/-- **A read burst has at least three strobes.** -/
theorem ReadBurst.three_le : 3 ≤ L := by
  by_contra hL
  have hpos := h.pos
  have hstart := h.sm_start
  obtain rfl | rfl : L = 1 ∨ L = 2 := by omega
  · have := (h.sm_last (k := 0) rfl).1
    rw [Nat.add_zero, hstart] at this
    exact absurd this (by simp)
  · have := (h.sm_last (k := 1) rfl).2
    rw [rdOeDelayCnt_of_smRead hstart] at this
    exact absurd this (by simp)

/-- `sm_read_oe_delay` follows the burst, its counter running down from 2. -/
theorem ReadBurst.oeDelay {i : ℕ} (hi : i < 3) :
    sm inp (t + L + i) = .smReadOeDelay ∧ (regs inp (t + L + i)).oeDelayCnt.toNat + i = 2 := by
  obtain ⟨k, rfl⟩ : ∃ k, L = k + 1 := ⟨L - 1, by have := h.pos; omega⟩
  obtain ⟨hr, hc⟩ := h.sm_last (k := k) rfl
  have hoe : sm inp (t + (k + 1)) = .smReadOeDelay := by
    rw [← Nat.add_assoc, sm_next_smReadRdAndOeDelay hr, if_pos hc]
  have hcnt : (regs inp (t + (k + 1))).oeDelayCnt = 2 := oeDelayCnt_of_smReadRdAndOeDelay hr
  have hrun := countdown (P := fun u ↦ sm inp u = .smReadOeDelay)
    (c := fun u ↦ (regs inp u).oeDelayCnt) (fun _ ↦ oeDelayCnt_step) hoe i
  rw [hcnt] at hrun
  exact hrun (by simp; omega)

theorem ReadBurst.sm_oe {u : ℕ} (hu : t + L ≤ u) (hu' : u < t + L + 3) :
    sm inp u = .smReadOeDelay := by
  have := (h.oeDelay (i := u - (t + L)) (by omega)).1
  rwa [Nat.add_sub_cancel' hu] at this

/-- **The decision to answer.**  Three cycles after a read burst the state machine leaves
`sm_read_oe_delay`, on the value `packets_to_send` has in the last of them. -/
theorem ReadBurst.sm_leave :
    sm inp (t + L + 3) =
      if (config inp (t + L + 2)).packetsToSend = 0 then .smIdle else .smWaitFlaga := by
  obtain ⟨hoe, hcnt⟩ := h.oeDelay (i := 2) (by omega)
  have hc : (regs inp (t + L + 2)).oeDelayCnt = 0 :=
    BitVec.eq_of_toNat_eq (by simpa using hcnt)
  rw [sm_next_smReadOeDelay hoe, if_pos hc]

/-- The decision ends `sm_read_oe_delay` whatever it is. -/
theorem ReadBurst.leaves :
    sm inp (t + L + 2) = .smReadOeDelay ∧ sm inp (t + L + 3) ≠ .smReadOeDelay := by
  refine ⟨h.sm_oe (by omega) (by omega), ?_⟩
  rw [h.sm_leave]
  split <;> simp

/-- `SLRD` stays high until the decision, and in the cycle after it. -/
theorem ReadBurst.quiet_after {u : ℕ} (hu : t + L ≤ u) (hu' : u ≤ t + L + 3) :
    ¬ SlrdLow inp u := by
  rw [slrdLow_iff]
  rcases Nat.lt_or_ge u (t + L + 3) with hlt | hge
  · simp [h.sm_oe hu hlt]
  · rw [show u = t + L + 3 by omega, h.sm_leave]
    split <;> simp

/-- The words of a burst are what the other side puts on `DQ`. -/
theorem ReadBurst.word_eq {i : ℕ} (hi : i < L) : word inp t i = (inp (t + i + 2)).dq := by
  refine dq_of_not_slwrLow ?_
  rw [slwrLow_succ]
  rcases Nat.lt_or_ge (i + 1) L with hlt | hge
  · rcases slrdLow_iff.mp (h.holds (i + 1) hlt) with hs | hs <;> rw [Nat.add_assoc, hs] <;> simp
  · simp [h.sm_oe (u := t + i + 1) (by omega) (by omega)]

end readBurst

/-! ## How long a read burst is -/

/-- **A read burst follows `FLAGD`**: from `sm_idle`, with `FLAGC` high, and `FLAGD` high for `n`
cycles from the one in which it is first looked at, the state machine reads `n + 2` words. -/
theorem readBurst_of_flagd {n : ℕ} (h : sm inp (t + 1) = .smIdle) (hc : (inp t).flagc = true)
    (hpos : 0 < n) (hd : ∀ i, i < n → (inp (t + 2 + i)).flagd = true)
    (hd' : (inp (t + 2 + n)).flagd = false) : ReadBurst inp (t + 4) (n + 2) := by
  have h2 : sm inp (t + 2) = .smFlagcRcvd := by
    rw [sm_next_smIdle h, flagcD_succ, if_pos hc]
  have h3 : sm inp (t + 3) = .smWaitFlagd := sm_next_smFlagcRcvd h2
  have hflag : ∀ i, (regs inp (t + 4 + i)).flagdD = (inp (t + 2 + (i + 1))).flagd := fun i ↦ by
    rw [show t + 4 + i = t + 2 + (i + 1) + 1 by omega, flagdD_succ]
  have hread : ∀ i, i < n → sm inp (t + 4 + i) = .smRead := by
    intro i hi
    induction i with
    | zero => rw [Nat.add_zero, sm_next_smWaitFlagd h3, flagdD_succ, if_pos (hd 0 hpos)]
    | succ i ih =>
      rw [← Nat.add_assoc, sm_next_smRead (ih (by omega)), hflag, hd (i + 1) hi, if_neg (by simp)]
  -- `FLAGD` is seen to be low in the last cycle of `sm_read`
  obtain ⟨m, rfl⟩ : ∃ m, n = m + 1 := ⟨n - 1, by omega⟩
  have hlast := hread m (Nat.lt_succ_self m)
  have hdelay : sm inp (t + 4 + m + 1) = .smReadRdAndOeDelay := by
    rw [sm_next_smRead hlast, hflag, hd', if_pos rfl]
  have hcnt : (regs inp (t + 4 + m + 1)).rdOeDelayCnt = 1 := rdOeDelayCnt_of_smRead hlast
  obtain ⟨hdelay', hcnt'⟩ := rdOeDelayCnt_step hdelay (by rw [hcnt]; simp)
  have hoe : sm inp (t + 4 + m + 3) = .smReadOeDelay := by
    rw [sm_next_smReadRdAndOeDelay hdelay', hcnt', hcnt]
    rfl
  refine ⟨⟨fun v hv ↦ ?_, fun i hi ↦ ?_⟩, by omega, ?_⟩
  · obtain rfl : v = t + 3 := by omega
    rw [slrdLow_iff, h3]
    simp
  · rcases Nat.lt_or_ge i (m + 1) with hlt | hge
    · exact slrdLow_iff.mpr (.inl (hread i hlt))
    · obtain rfl | rfl : i = m + 1 ∨ i = m + 2 := by omega
      · exact slrdLow_iff.mpr (.inr hdelay)
      · exact slrdLow_iff.mpr (.inr hdelay')
  · rw [slrdLow_iff, show t + 4 + (m + 1 + 2) = t + 4 + m + 3 by omega, hoe]
    simp

/-- When `FLAGD` is high only until the first burst has begun, there is no other. -/
theorem rises_of_flagd (hd : ∀ t, (inp t).flagd = decide (t < 5)) (hb : ReadBurst inp 4 L)
    (h : Rises (SlrdLow inp) t) : t = 4 := by
  have h4 := four_le_of_rises h
  obtain ⟨s, rfl⟩ : ∃ s, t = s + 4 := ⟨t - 4, by omega⟩
  have h3 := sm_next_smWaitFlagd (sm_before_rises h).1
  rw [sm_of_rises h, flagdD_succ] at h3
  have hs : s + 2 < 5 := by
    by_contra hge
    rw [hd, decide_eq_false hge, if_neg (by simp)] at h3
    simp at h3
  have h3L := hb.three_le
  exact Nat.le_antisymm (h.le_of_holds (Nat.le_refl _) fun u h1 h2 ↦ hb.holds_at h1 (by omega)) h4

end Fpga
end Usb3FpgaCard
