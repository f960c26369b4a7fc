import Usb3FpgaCard.Fpga.Transmit

/-!
# The slave FIFO bus

`DQ` is driven by the module while `SLWR_1d_` is low and by the FX3 while `SLOE` is low.  Nothing
on either side keeps the two apart but the states the module has to pass on its way from one to
the other, and each way takes at least three cycles with neither driver on:

* to write after a read it has to wait for `FLAGA` and `FLAGB`, and the strobe is registered;
* to read after a write it has to go through `sm_idle`, `sm_flagc_rcvd` and `sm_wait_flagd`.

The address changes a cycle after the state, which is why `sm_flagc_rcvd` and `sm_wait_flagd` put
out the read address already.
-/

set_option autoImplicit false

namespace Usb3FpgaCard
namespace Fpga

open Clocked

variable {inp : ℕ → Pins} {t u : ℕ}

/-- Nobody drives `DQ`. -/
def Released (inp : ℕ → Pins) (t : ℕ) : Prop := ¬ SlwrLow inp t ∧ ¬ SloeLow inp t

/-- Between cycles `t` and `u` there are three cycles in a row in which nobody drives `DQ`. -/
def Turnaround (inp : ℕ → Pins) (t u : ℕ) : Prop :=
  ∃ v, t < v ∧ v + 2 < u ∧ ∀ i, i < 3 → Released inp (v + i)

/-! ## One cycle -/

/-- The states in which `SLOE` is low are entered from `sm_wait_flagd` and from one another. -/
theorem SmEdge.to_read {s s' : SmState} (h : SmEdge s s')
    (hs' : s' = .smRead ∨ s' = .smReadRdAndOeDelay ∨ s' = .smReadOeDelay) :
    s = .smWaitFlagd ∨ s = .smRead ∨ s = .smReadRdAndOeDelay ∨ s = .smReadOeDelay := by
  cases h <;> simp_all

theorem sloeLow_of_slrdLow (h : SlrdLow inp t) : SloeLow inp t := by
  rcases slrdLow_iff.mp h with hs | hs
  · exact sloeLow_iff.mpr (.inl hs)
  · exact sloeLow_iff.mpr (.inr (.inl hs))

/-- **The two drivers of `DQ` are never on together.** -/
theorem not_sloeLow_of_slwrLow (h : SlwrLow inp t) : ¬ SloeLow inp t := by
  obtain ⟨u, rfl, hw⟩ := slwrLow_iff.mp h
  intro ho
  have hedge := (sm_edge inp u).to_read (sloeLow_iff.mp ho)
  rw [hw] at hedge
  simp at hedge

/-- Nobody drives `DQ` in a cycle before which the module does not write and in which it does not
read. -/
theorem released_succ (hw : sm inp t ≠ .smWrite) (ho : ¬ SloeLow inp (t + 1)) :
    Released inp (t + 1) :=
  ⟨fun h ↦ hw (slwrLow_succ.mp h), ho⟩

theorem addr_of_sloeLow (h : SloeLow inp t) : addr inp t = 3 := by
  rw [sloeLow_iff] at h
  cases t with
  | zero =>
    rw [sm_zero] at h
    simp at h
  | succ t =>
    have hs : (regs inp t).currentSmState = .smWaitFlagd ∨ (regs inp t).currentSmState = .smRead ∨
        (regs inp t).currentSmState = .smReadRdAndOeDelay ∨
        (regs inp t).currentSmState = .smReadOeDelay := (sm_edge inp t).to_read h
    rw [addr_succ, Regs.gpifAddress, if_pos (.inr hs)]

theorem addr_of_slwrLow (h : SlwrLow inp t) : addr inp t = 0 ∨ addr inp t = 1 := by
  obtain ⟨u, rfl, hw⟩ := slwrLow_iff.mp h
  have hs : (regs inp u).currentSmState = .smWrite := hw
  rw [addr_succ, Regs.gpifAddress, hs, if_neg (by simp)]
  split
  · exact .inr rfl
  · exact .inl rfl

/-- **`SLOE` outlasts `SLRD` by the latency of the slave FIFO**: a word strobed two cycles ago is
on `DQ`. -/
theorem sloeLow_of_slrdD2 (h : (regs inp t).slrdD2 = false) : SloeLow inp t := by
  match t, h with
  | t + 2, h =>
    have hlow : SlrdLow inp t := h
    rw [sloeLow_iff]
    rcases slrdLow_iff.mp hlow with hs | hs
    · have h1 := sm_next_smRead hs
      split at h1
      · have h2 := sm_next_smReadRdAndOeDelay h1
        split at h2 <;> simp [h2]
      · have h2 := sm_next_smRead h1
        split at h2 <;> simp [h2]
    · have h1 := sm_next_smReadRdAndOeDelay hs
      split at h1
      · have hc : (regs inp (t + 1)).oeDelayCnt ≠ 0 := by
          rw [oeDelayCnt_of_smReadRdAndOeDelay hs]
          decide
        exact .inr (.inr (oeDelayCnt_step h1 hc).1)
      · have h2 := sm_next_smReadRdAndOeDelay h1
        split at h2 <;> simp [h2]

/-! ## Turning the bus around -/

/-- A cycle with `SLOE` low goes back to a read burst. -/
theorem exists_rises_of_sloeLow (htu : t ≤ u) (ht : ¬ SloeLow inp t) (hu : SloeLow inp u) :
    ∃ a, t < a ∧ a ≤ u ∧ Rises (SlrdLow inp) a := by
  obtain ⟨a, hta, hau, ha, -⟩ := exists_rises ht hu htu
  refine ⟨a, hta, hau, ?_, fun b hb hlow ↦ ha.before b hb (sloeLow_of_slrdLow hlow)⟩
  obtain ⟨c, rfl⟩ : ∃ c, a = c + 1 := ⟨a - 1, by omega⟩
  have hc := ha.before c rfl
  rw [sloeLow_iff] at hc
  rcases (sm_edge inp c).to_read (sloeLow_iff.mp ha.holds) with hs | hs
  · have hnext := sm_next_smWaitFlagd hs
    have hlow := sloeLow_iff.mp ha.holds
    rw [slrdLow_iff]
    split at hnext <;> simp_all
  · exact absurd hs hc

/-- **From a read to a write.**  The last two cycles before `sm_write` wait for a flag, and the
first in `sm_write` does not strobe yet. -/
theorem turnaround_write (htu : t < u) (ht : SloeLow inp t) (hu : SlwrLow inp u) :
    Turnaround inp t u := by
  obtain ⟨w, rfl, hw⟩ := slwrLow_iff.mp hu
  obtain ⟨l, b, hp, hbw, hall⟩ := exists_launch hw
  obtain ⟨v, rfl⟩ : ∃ v, b = v + 2 := ⟨b - 2, by have := hp.lt; omega⟩
  have hlv : l ≤ v := by have := hp.lt; omega
  have hwait : ∀ x, l ≤ x → x < v + 2 → sm inp x = .smWaitFlaga ∨ sm inp x = .smWaitFlagb := by
    intro x h1 h2
    rcases Nat.eq_or_lt_of_le h1 with rfl | hlt
    · exact .inl hp.launch.waitFlaga
    · exact .inr (hp.wait x hlt h2)
  have hoe : ∀ x, v ≤ x → x ≤ w → ¬ SloeLow inp x := by
    intro x h1 h2 ho
    rcases Nat.lt_or_ge x (v + 2) with hlt | hge
    · rcases hwait x (by omega) hlt with hs | hs <;> rw [sloeLow_iff, hs] at ho <;> simp at ho
    · rw [sloeLow_iff, hall x hge h2] at ho
      simp at ho
  have htv : t < v := by
    by_contra hge
    exact hoe t (by omega) (by omega) ht
  obtain ⟨x, rfl⟩ : ∃ x, v = x + 1 := ⟨v - 1, by omega⟩
  have hnot : ∀ i, i < 3 → sm inp (x + i) ≠ .smWrite := by
    intro i hi hs
    rcases Nat.eq_zero_or_pos i with rfl | hpos
    · have hedge := sm_edge inp x
      rw [show sm inp x = .smWrite from hs] at hedge
      rcases hwait (x + 1) hlv (by omega) with hs' | hs' <;> rw [hs'] at hedge <;> cases hedge
    · rcases hwait (x + i) (by omega) (by omega) with hs' | hs' <;> simp [hs] at hs'
  refine ⟨x + 1, htv, by omega, fun i hi ↦ ?_⟩
  rw [show x + 1 + i = x + i + 1 by omega]
  exact released_succ (hnot i hi) (hoe _ (by omega) (by omega))

/-- **From a write to a read.**  The three cycles before `sm_read` are those of `sm_idle`,
`sm_flagc_rcvd` and `sm_wait_flagd`, or of a longer wait. -/
theorem turnaround_read (htu : t < u) (ht : SlwrLow inp t) (hu : SloeLow inp u) :
    Turnaround inp t u := by
  obtain ⟨a, hta, hau, ha⟩ :=
    exists_rises_of_sloeLow (Nat.le_of_lt htu) (not_sloeLow_of_slwrLow ht) hu
  obtain ⟨s, rfl⟩ : ∃ s, a = s + 4 := ⟨a - 4, by have := four_le_of_rises ha; omega⟩
  obtain ⟨h3, h2, h1, h0⟩ := sm_before_rises ha
  have hrel : ∀ i, i < 3 → Released inp (s + 1 + i) := by
    intro i hi
    obtain rfl | rfl | rfl : i = 0 ∨ i = 1 ∨ i = 2 := by omega
    · refine released_succ (fun hs ↦ by simp [hs] at h0) fun ho ↦ ?_
      rcases h1 with h1 | h1 | h1 <;> rw [sloeLow_iff, h1] at ho <;> simp at ho
    · refine released_succ (fun hs ↦ by simp [hs] at h1) fun ho ↦ ?_
      rcases h2 with h2 | h2 <;> rw [sloeLow_iff, h2] at ho <;> simp at ho
    · refine released_succ (fun hs ↦ by simp [hs] at h2) fun ho ↦ ?_
      rw [sloeLow_iff, h3] at ho
      simp at ho
  refine ⟨s + 1, ?_, by omega, hrel⟩
  by_contra hge
  have := hrel (t - (s + 1)) (by omega)
  rw [Nat.add_sub_cancel' (by omega)] at this
  exact this.1 ht

/-! ## The bus is safe -/

/-- What the FX3 and the board rely on. -/
structure BusSafe (inp : ℕ → Pins) : Prop where
  /-- `DQ` has one driver at a time. -/
  exclusive : ∀ t, ¬ (SlwrLow inp t ∧ SloeLow inp t)
  /-- It is given away with three cycles between, -/
  toWrite : ∀ t u, t < u → SloeLow inp t → SlwrLow inp u → Turnaround inp t u
  /-- in both directions. -/
  toRead : ∀ t u, t < u → SlwrLow inp t → SloeLow inp u → Turnaround inp t u
  /-- Reads and writes are never strobed together. -/
  strobes : ∀ t, ¬ (SlrdLow inp t ∧ SlwrLow inp t)
  /-- What is strobed is let onto the bus. -/
  enabled : ∀ t, SlrdLow inp t → SloeLow inp t
  /-- Reads are from socket 3. -/
  readAddr : ∀ t, SlrdLow inp t ∨ SloeLow inp t → addr inp t = 3
  /-- Writes are to socket 0 or 1. -/
  writeAddr : ∀ t, SlwrLow inp t → addr inp t = 0 ∨ addr inp t = 1
  /-- `SLOE` is low while a word that is consumed is on `DQ`. -/
  readWord : ∀ t, (regs inp t).slrdD2 = false → SloeLow inp t

/-- **The bus is safe in every run.** -/
theorem busSafe (inp : ℕ → Pins) : BusSafe inp where
  exclusive _ h := not_sloeLow_of_slwrLow h.1 h.2
  toWrite _ _ := turnaround_write
  toRead _ _ := turnaround_read
  strobes _ h := not_sloeLow_of_slwrLow h.2 (sloeLow_of_slrdLow h.1)
  enabled _ := sloeLow_of_slrdLow
  readAddr _ h := addr_of_sloeLow (h.elim sloeLow_of_slrdLow id)
  writeAddr _ := addr_of_slwrLow
  readWord _ := sloeLow_of_slrdD2

end Fpga
end Usb3FpgaCard
