import Usb3FpgaCard.Fpga.Counters

/-!
# What the card has been asked for and what it has sent

Over a whole run the commands and the answers make up an account.  A read burst that has ended puts
the words its command asks for on it (`asked`), and every strobe of `SLWR` takes one word off.
Whenever the state machine rests between two transfers the account is even
(`strobeCount_eq_asked`): nothing is sent twice, nothing is left out, and nothing is sent that was
not asked for.  So the answer to a command begins in the stream of words where the answers to all
commands before it end (`Answer.strobeCount_eq`).
-/

set_option autoImplicit false

namespace Usb3FpgaCard
namespace Fpga

open Clocked

variable {inp : ℕ → Pins} {t u r L a M : ℕ}

/-! ## The account -/

/-- Every read burst is a command: it begins with the header, and `packet_index` does not start over
in it. -/
structure Commands (inp : ℕ → Pins) : Prop where
  /-- The first word. -/
  header : ∀ t L, ReadBurst inp t L → word inp t 0 = Regs.header
  /-- The number of words. -/
  length : ∀ t L, ReadBurst inp t L → L < 2 ^ 32

/-- The words in the answer to a command for `n` packets. -/
def answerWords (n : BitVec 32) : ℕ := if n = 0 then 0 else wordCount n

/-- The words the commands ask for that have been read before cycle `t`. -/
def asked (inp : ℕ → Pins) (t : ℕ) : ℕ :=
  ((bursts (SlrdLow inp) t).map fun x ↦ answerWords (word inp x.1 1)).sum

theorem answerWords_eq {n : BitVec 32} (h : n.toNat ≤ 2 ^ 20) : answerWords n = 4096 * n.toNat := by
  rw [answerWords]
  split
  case isTrue h0 => rw [h0]; rfl
  case isFalse hne =>
    refine wordCount_eq (Nat.one_le_iff_ne_zero.mpr fun h0 ↦ hne ?_) h
    exact BitVec.eq_of_toNat_eq h0

/-- A command that has been read is on the account. -/
theorem ReadBurst.asked_succ (h : ReadBurst inp r L) :
    asked inp (r + L + 1) = asked inp r + answerWords (word inp r 1) := by
  rw [asked, Burst.bursts_succ h, List.map_append, List.sum_append, asked]
  rfl

theorem asked_eq_of_not_falls (htu : t ≤ u)
    (h : ∀ v, t ≤ v → v < u → ¬ Falls (SlrdLow inp) v) : asked inp u = asked inp t := by
  rw [asked, bursts_eq_of_not_falls htu h, asked]

/-! ## Between two transfers -/

/-- The states between two transfers: the last one is over and no word of the next has been read. -/
def SmState.Resting (s : SmState) : Prop := s = .smIdle ∨ s = .smFlagcRcvd ∨ s = .smWaitFlagd

/-- The state machine comes to rest in `sm_idle`. -/
theorem SmEdge.to_resting {s s' : SmState} (h : SmEdge s s') (hs' : s'.Resting) :
    s.Resting ∨ s' = .smIdle ∧ (s = .smReadOeDelay ∨ s = .smWriteWrDelay) := by
  cases h <;> simp_all [SmState.Resting]

/-- Then nothing is being strobed, -/
theorem not_slwrLow_of_resting (h : (sm inp t).Resting) : ¬ SlwrLow inp t := by
  intro hlow
  obtain ⟨u, rfl, hu⟩ := slwrLow_iff.mp hlow
  rcases (hu ▸ sm_edge inp u).from_smWrite with hs | hs <;> simp [SmState.Resting, hs] at h

/-- and no read burst has just ended. -/
theorem not_falls_of_resting (h : (sm inp t).Resting) : ¬ Falls (SlrdLow inp) t := by
  intro hf
  obtain ⟨v, rfl⟩ : ∃ v, t = v + 1 := ⟨t - 1, by
    have := hf.burst.pos
    have := activeFor_le (P := SlrdLow inp) t
    omega⟩
  have hlow := slrdLow_iff.mp (activeFor_ne_zero_iff.mp hf.2)
  have hedge := sm_edge inp v
  rcases hlow with hs | hs <;> rw [hs] at hedge <;>
    generalize sm inp (v + 1) = s at h hedge <;> cases hedge <;> simp [SmState.Resting] at h

/-- A cycle at rest changes nothing on either side. -/
theorem step_of_resting (h : (sm inp t).Resting) :
    strobeCount inp (t + 1) = strobeCount inp t ∧ asked inp (t + 1) = asked inp t := by
  refine ⟨strobeCount_of_not_slwrLow (not_slwrLow_of_resting h), ?_⟩
  refine asked_eq_of_not_falls (Nat.le_succ t) fun v h1 h2 ↦ ?_
  obtain rfl : v = t := by omega
  exact not_falls_of_resting h

/-! ## One transfer -/

/-- Nothing is strobed between a read burst and its answer. -/
theorem Answer.strobeCount_eq (h : Answer inp r L a M) :
    strobeCount inp a = strobeCount inp r := by
  have hstart := h.start
  refine strobeCount_eq_of_not_slwrLow (by omega) fun v h1 h2 hlow ↦ ?_
  have hge := (h.only v h1 (fun w h3 h4 ↦ h.quiet w h3 (by omega)) hlow).1
  omega

section readBurst

variable (h : ReadBurst inp r L)
include h

/-- **An answer has the length its command asks for.** -/
theorem ReadBurst.exists_answer (h0 : word inp r 0 = Regs.header) (hL : L < 2 ^ 32)
    (hs : sm inp (r + L + 3) = .smWaitFlaga) :
    WaitsForever inp (r + L + 3) ∨ ∃ a, Answer inp r L a (answerWords (word inp r 1)) := by
  refine (h.answer hs).imp_right ?_
  rintro ⟨l, b, -, hl, hq, ha⟩
  -- the launch is for the command's own count
  have hcount : packetCount inp l = word inp r 1 :=
    h.get_config (f := .packetsToSend) h0 hL (show 1 < L by have := h.three_le; omega) hl
      fun v h1 h2 ↦ hq v h1 (by omega)
  have hne : word inp r 1 ≠ 0 := by
    rw [h.sm_leave_of_header h0 (Nat.le_of_lt hL)] at hs
    intro hzero
    rw [if_pos hzero] at hs
    simp at hs
  rw [hcount] at ha
  exact ⟨b + 1, by rwa [answerWords, if_neg hne]⟩

/-- **One transfer**: from the first word read until the state machine is back in `sm_idle`, the
card sends as many words as the command asks for. -/
theorem ReadBurst.strobeCount_idle (h0 : word inp r 0 = Regs.header) (hL : L < 2 ^ 32)
    (ht : r + L + 3 ≤ t) (hidle : sm inp t = .smIdle)
    (hfirst : ∀ u, r + L + 3 ≤ u → u < t → sm inp u ≠ .smIdle) :
    strobeCount inp t = strobeCount inp r + answerWords (word inp r 1) := by
  have hleave := h.sm_leave_of_header h0 (Nat.le_of_lt hL)
  split at hleave
  case isTrue hzero =>
    have hlast : t = r + L + 3 :=
      Nat.le_antisymm (Nat.le_of_not_lt fun hlt ↦ hfirst _ (Nat.le_refl _) hlt hleave) ht
    subst hlast
    rw [answerWords, if_pos hzero, Nat.add_zero]
    refine strobeCount_eq_of_not_slwrLow (by omega) fun v h1 h2 ↦ ?_
    exact h.silent hleave h1 fun w h3 h4 ↦ h.quiet_after h3 (by omega)
  case isFalse =>
    rcases h.exists_answer h0 hL hleave with hw | ⟨a, ha⟩
    · rcases hw t ht with hs | hs <;> rw [hidle] at hs <;> simp at hs
    have hstart := ha.start
    have hlast : t = a + answerWords (word inp r 1) := by
      refine Nat.le_antisymm (Nat.le_of_not_lt fun hlt ↦ ?_) (Nat.le_of_not_lt fun hlt ↦ ?_)
      · exact hfirst _ (by omega) hlt ha.idle.1
      · exact ha.idle.2 t (by omega) hlt hidle
    rw [hlast, ha.burst.strobeCount_add (Nat.le_refl _), ha.strobeCount_eq]

/-- The same of what is asked for. -/
theorem ReadBurst.asked_idle (ht : r + L + 3 ≤ t) (hq : Quiet inp (r + L) t) :
    asked inp t = asked inp r + answerWords (word inp r 1) := by
  rw [← h.asked_succ]
  refine asked_eq_of_not_falls (by omega) fun v h1 h2 hf ↦ ?_
  obtain ⟨w, rfl⟩ : ∃ w, v = w + 1 := ⟨v - 1, by omega⟩
  exact hq w (by omega) (by omega) (activeFor_ne_zero_iff.mp hf.2)

end readBurst

/-- The transfer that has just ended. -/
theorem exists_transfer (hidle : sm inp (t + 1) = .smIdle)
    (hs : sm inp t = .smReadOeDelay ∨ sm inp t = .smWriteWrDelay) :
    ∃ r L, ReadBurst inp r L ∧ r + L + 3 ≤ t + 1 ∧ Quiet inp (r + L) (t + 1) ∧
      ∀ u, r + L + 3 ≤ u → u < t + 1 → sm inp u ≠ .smIdle := by
  rcases hs with hs | hs
  · obtain ⟨r, L, h, h1, h2⟩ := exists_readBurst_of_smReadOeDelay hs
    have hend : t + 1 = r + L + 3 := by
      by_contra hne
      rw [h.sm_oe (u := t + 1) (by omega) (by omega)] at hidle
      simp at hidle
    exact ⟨r, L, h, Nat.le_of_eq hend.symm, fun v h3 h4 ↦ h.quiet_after h3 (by omega),
      fun u h3 h4 ↦ by omega⟩
  · obtain ⟨r, L, h, hle, -, hans⟩ := exists_readBurst_of_answering (.inr (.inr (.inr hs)))
    exact ⟨r, L, h, Nat.le_succ_of_le hle, h.quiet_of_answering hle hans, fun u h3 h4 ↦
      (hans u h3 (Nat.le_of_lt_succ h4)).not_read.2.2⟩

/-! ## The whole run -/

/-- When a read burst begins, the state machine has been waiting for `FLAGD`. -/
theorem ReadBurst.exists_resting (h : ReadBurst inp r L) :
    ∃ s, s + 1 = r ∧ (sm inp s).Resting := by
  obtain ⟨s, rfl⟩ : ∃ s, r = s + 4 := ⟨r - 4, by have := four_le_of_rises (Burst.rises h); omega⟩
  exact ⟨s + 3, rfl, .inr (.inr (sm_before_rises (Burst.rises h)).1)⟩

/-- **The account is even** whenever the state machine is between two transfers, in every run in
which the card is sent commands: it has written exactly the words it was asked for. -/
theorem strobeCount_of_resting (hcmd : Commands inp) (h : (sm inp t).Resting) :
    strobeCount inp t = asked inp t := by
  induction t using Nat.strong_induction_on with
  | _ t ih =>
    cases t with
    | zero => rfl
    | succ t =>
      rcases (sm_edge inp t).to_resting h with hs | ⟨hidle, hs⟩
      · rw [(step_of_resting hs).1, (step_of_resting hs).2, ih t (Nat.lt_succ_self t) hs]
      · obtain ⟨r, L, hb, hle, hq, hfirst⟩ := exists_transfer hidle hs
        obtain ⟨s, rfl, hrest⟩ := hb.exists_resting
        rw [hb.strobeCount_idle (hcmd.header _ _ hb) (hcmd.length _ _ hb) hle hidle hfirst,
          hb.asked_idle hle hq, (step_of_resting hrest).1, (step_of_resting hrest).2,
          ih s (by omega) hrest]

/-- So it is when a command begins. -/
theorem ReadBurst.strobeCount_start (hcmd : Commands inp) (h : ReadBurst inp r L) :
    strobeCount inp r = asked inp r := by
  obtain ⟨s, rfl, hrest⟩ := h.exists_resting
  rw [(step_of_resting hrest).1, (step_of_resting hrest).2, strobeCount_of_resting hcmd hrest]

/-- **Where an answer begins**: right after the words all earlier commands have asked for. -/
theorem ReadBurst.strobeCount_answer (hcmd : Commands inp) (h : ReadBurst inp r L)
    (ha : Answer inp r L a M) : strobeCount inp a = asked inp r := by
  rw [ha.strobeCount_eq, h.strobeCount_start hcmd]

/-- **How long it is.** -/
theorem ReadBurst.length_answer (hcmd : Commands inp) (h : ReadBurst inp r L)
    (ha : Answer inp r L a M) : M = answerWords (word inp r 1) := by
  have hstart := ha.start
  have hsent := h.strobeCount_idle (hcmd.header _ _ h) (hcmd.length _ _ h) (t := a + M) (by omega)
    ha.idle.1 fun u h1 h2 ↦ ha.idle.2 u (by omega) h2
  rw [ha.burst.strobeCount_add (Nat.le_refl _), ha.strobeCount_eq] at hsent
  exact Nat.add_left_cancel hsent

theorem asked_mono (htu : t ≤ u) : asked inp t ≤ asked inp u := by
  induction u with
  | zero => rw [Nat.le_zero.mp htu]
  | succ u ih =>
    rcases Nat.eq_or_lt_of_le htu with rfl | hlt
    · exact Nat.le_refl _
    refine Nat.le_trans (ih (Nat.le_of_lt_succ hlt)) ?_
    by_cases hf : Falls (SlrdLow inp) u
    · have hend := Nat.sub_add_cancel (activeFor_le (P := SlrdLow inp) u)
      have hask := ReadBurst.asked_succ hf.burst
      have hstart : asked inp u = asked inp (u - activeFor (SlrdLow inp) u) :=
        asked_eq_of_not_falls (Nat.sub_le _ _) fun v h1 h2 hv ↦
          hv.1 (hf.burst.holds_at h1 (by omega))
      rw [hend, ← hstart] at hask
      rw [hask]
      exact Nat.le_add_right _ _
    · refine Nat.le_of_eq (asked_eq_of_not_falls (Nat.le_succ u) fun v h1 h2 ↦ ?_).symm
      obtain rfl : v = u := by omega
      exact hf

/-- A strobe is a word of the answer to the command read last, which is on the account. -/
theorem strobeCount_succ_le_of_slwrLow (hcmd : Commands inp) (h : SlwrLow inp t) :
    strobeCount inp (t + 1) ≤ asked inp t := by
  obtain ⟨w, rfl, hw⟩ := slwrLow_iff.mp h
  obtain ⟨r, L, hb, hle, hs, hans⟩ := exists_readBurst_of_answering (.inr (.inr (.inl hw)))
  have hq := hb.quiet_of_answering hle hans
  rcases hb.exists_answer (hcmd.header _ _ hb) (hcmd.length _ _ hb) hs with hwait | ⟨a, ha⟩
  · rcases hwait w hle with hs | hs <;> rw [hw] at hs <;> simp at hs
  obtain ⟨hge, hlt⟩ := ha.only (w + 1) (by omega) hq h
  obtain ⟨i, hi⟩ := Nat.exists_eq_add_of_le hge
  rw [hi, Nat.add_assoc, ha.burst.strobeCount_add (by omega), ha.strobeCount_eq,
    hb.strobeCount_start hcmd, ← hi, hb.asked_idle (by omega) hq]
  omega

/-- What the card has been asked for and what it has sent agree over the whole run. -/
structure EvenAccount (inp : ℕ → Pins) : Prop where
  /-- Between two transfers it has sent exactly what it was asked for. -/
  even : ∀ t, (sm inp t).Resting → strobeCount inp t = asked inp t
  /-- It never has sent more. -/
  bounded : ∀ t, strobeCount inp t ≤ asked inp t
  /-- An answer begins right after the words all earlier commands have asked for, and has as many
  words as its own command asks for. -/
  answer : ∀ r L a M, ReadBurst inp r L → Answer inp r L a M →
    strobeCount inp a = asked inp r ∧ M = answerWords (word inp r 1)

/-- **Nothing is sent twice, left out or sent unasked**, in every run in which the card is sent
commands. -/
theorem evenAccount (hcmd : Commands inp) : EvenAccount inp where
  even t := strobeCount_of_resting hcmd
  bounded t := by
    induction t with
    | zero => exact Nat.zero_le _
    | succ t ih =>
      by_cases hlow : SlwrLow inp t
      · exact Nat.le_trans (strobeCount_succ_le_of_slwrLow hcmd hlow) (asked_mono (Nat.le_succ t))
      · rw [strobeCount_of_not_slwrLow hlow]
        exact Nat.le_trans ih (asked_mono (Nat.le_succ t))
  answer r L a M hb ha := ⟨hb.strobeCount_answer hcmd ha, hb.length_answer hcmd ha⟩

/-- A single command for one packet. -/
theorem evenAccount_onePacket : EvenAccount onePacket := by
  have hone : ∀ t L, ReadBurst onePacket t L → t = 4 ∧ L = 5 := fun t L h ↦ by
    obtain rfl : t = 4 :=
      rises_of_flagd (fun _ ↦ rfl) onePacket_readBurst (Burst.rises h)
    exact ⟨rfl, Burst.length_unique h onePacket_readBurst⟩
  refine evenAccount ⟨fun t L h ↦ ?_, fun t L h ↦ ?_⟩
  · obtain ⟨rfl, rfl⟩ := hone t L h
    decide
  · obtain ⟨rfl, rfl⟩ := hone t L h
    omega

end Fpga
end Usb3FpgaCard
