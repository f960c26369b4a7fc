import Mathlib.Algebra.BigOperators.Ring.List
import Mathlib.Algebra.Ring.Nat
import Usb3FpgaCard.Clocked.Counting
import Usb3FpgaCard.Fpga.Answer

/-!
# The diagnostic counters: `wait_ctr`, `wait_ctr_gbl`, `tx_ctr`, `write_ctr`

Each of them is stepped by a decode of the state, and wraps at its own width.  As long as
`all_ctr_reset` stays low they agree with the commands served (`countersAgree`):

* between two answers `write_ctr` is the number of words that the packet counts of all answers so
  far make, and `tx_ctr` the number of answers;
* while an answer is sent, `wait_ctr` is the number of cycles its command had to wait for the flags,
  and `wait_ctr_gbl` the sum of that over all commands.

The cycles of a wait are sorted by the command that waits, which is the one read last
(`commandOf`), and the words by the write burst they are sent in (`completed`).
-/

set_option autoImplicit false

namespace Usb3FpgaCard
namespace Fpga

open Clocked

variable (inp : ℕ → Pins) (t : ℕ)

/-! ## What is counted -/

/-- The state machine waits for `FLAGA` or `FLAGB`. -/
def Waiting : Prop := (regs inp t).waiting

instance : Decidable (Waiting inp t) := inferInstanceAs (Decidable (Regs.waiting _))

/-- The write bursts that have ended, with their starts and lengths. -/
def completed : List (ℕ × ℕ) := bursts (SlwrLow inp) (t + 1)

/-- The last launch in cycle `t` or before. -/
def launchOf : ℕ := Nat.findGreatest (Launch inp) t

/-- The packet count a write burst that starts in cycle `t` is sent with. -/
def packetsOf : ℕ := (packetCount inp (launchOf inp t)).toNat

/-- The command that is served in cycle `t`: the start of the last read burst. -/
def commandOf : ℕ := Nat.findGreatest (Rises (SlrdLow inp)) t

/-- All commands read before cycle `t`. -/
def commands : Finset ℕ := (Finset.range t).filter (Rises (SlrdLow inp))

/-- The number of cycles before cycle `t` in which command `c` had to wait for a flag. -/
def waitCycles (c : ℕ) : ℕ := Nat.count (fun v ↦ Waiting inp v ∧ commandOf inp v = c) t

/-- The counters agree with the commands served. -/
structure CountersAgree : Prop where
  /-- In `sm_idle`, `write_ctr` is the number of words in the packets of all write bursts, -/
  writeCtr : sm inp t = .smIdle → (regs inp t).writeCtr =
    BitVec.ofNat 32 (4096 * ((completed inp t).map fun x ↦ packetsOf inp x.1).sum)
  /-- and `tx_ctr` is the number of write bursts. -/
  txCtr : sm inp t = .smIdle → (regs inp t).txCtr = BitVec.ofNat 16 (completed inp t).length
  /-- In `sm_write`, `wait_ctr` is the number of cycles the command has waited, -/
  waitCtr : sm inp t = .smWrite →
    (regs inp t).waitCtr = BitVec.ofNat 32 (waitCycles inp t (commandOf inp t))
  /-- and `wait_ctr_gbl` is the sum over all commands. -/
  waitCtrGbl : sm inp t = .smWrite →
    (regs inp t).waitCtrGbl = BitVec.ofNat 32 (∑ c ∈ commands inp t, waitCycles inp t c)

variable {inp t} {a r L M l b : ℕ}

theorem waiting_iff : Waiting inp t ↔ sm inp t = .smWaitFlaga ∨ sm inp t = .smWaitFlagb := or_comm

/-! ## The counters after an edge -/

theorem waitCtr_succ :
    (regs inp (t + 1)).waitCtr =
      if sm inp t = .smIdle then 0
      else if Waiting inp t then (regs inp t).waitCtr + 1 else (regs inp t).waitCtr := rfl

section noReset

variable (h0 : ∀ t, (inp t).allCtrReset = false)
include h0

/-- A counter that `all_ctr_reset` clears, while it is low. -/
theorem ctr_eq {w : ℕ} {c : ℕ → BitVec w} {P : ℕ → Prop} [DecidablePred P] (hc : c 0 = 0)
    (hstep : ∀ u, c (u + 1) =
      if (inp u).allCtrReset then 0 else if P u then c u + 1 else c u) (t : ℕ) :
    c t = BitVec.ofNat w (Nat.count P t) := by
  refine counts_from_zero hc (fun u ↦ ?_) t
  rw [hstep u, h0 u, if_neg Bool.false_ne_true]

theorem waitCtrGbl_eq (t : ℕ) :
    (regs inp t).waitCtrGbl = BitVec.ofNat 32 (Nat.count (Waiting inp) t) :=
  ctr_eq (c := fun u ↦ (regs inp u).waitCtrGbl) h0 rfl (fun _ ↦ rfl) t

theorem txCtr_eq (t : ℕ) :
    (regs inp t).txCtr = BitVec.ofNat 16 (Nat.count (fun v ↦ sm inp v = .smWriteWrDelay) t) :=
  ctr_eq (c := fun u ↦ (regs inp u).txCtr) h0 rfl (fun _ ↦ rfl) t

theorem writeCtr_eq (t : ℕ) :
    (regs inp t).writeCtr = BitVec.ofNat 32 (Nat.count (fun v ↦ sm inp v = .smWrite) t) :=
  ctr_eq (c := fun u ↦ (regs inp u).writeCtr) h0 rfl (fun _ ↦ rfl) t

end noReset

/-! ## Words and write bursts -/

theorem mem_completed : (a, M) ∈ completed inp t ↔ WriteBurst inp a M ∧ a + M ≤ t := by
  rw [completed, mem_bursts, Nat.lt_succ_iff]
  rfl

/-- The last launch before a write burst is its own. -/
theorem WritePhase.launchOf_eq (h : WritePhase inp l b) : launchOf inp (b + 1) = l := by
  have hlt := h.lt
  refine Nat.findGreatest_eq_iff.mpr ⟨by omega, fun _ ↦ h.launch, fun u h1 h2 hu ↦ ?_⟩
  have ha := hu.waitFlaga
  rcases Nat.lt_trichotomy u b with hub | rfl | hub
  · rw [h.wait u h1 hub] at ha
    simp at ha
  · rw [h.write] at ha
    simp at ha
  · obtain rfl : u = b + 1 := by omega
    have hedge := sm_edge inp b
    rw [h.write, ha] at hedge
    cases hedge

theorem WriteBurst.sentWith_packetsOf (h : WriteBurst inp a M) :
    SentWith inp a (packetsOf inp a) ∧ M = wordCount (packetCount inp (launchOf inp a)) := by
  obtain ⟨l, b, hp, rfl, rfl⟩ := h.exists_launch
  rw [packetsOf, hp.launchOf_eq]
  exact ⟨⟨l, b, hp, rfl, rfl⟩, rfl⟩

/-- A packet is 4096 words, whatever the count, as far as a counter of 32 bits can tell. -/
theorem ofNat_wordCount (n : BitVec 32) :
    BitVec.ofNat 32 (wordCount n) = BitVec.ofNat 32 (4096 * n.toNat) := by
  refine BitVec.eq_of_toNat_eq ?_
  rw [wordCount, BitVec.toNat_ofNat, BitVec.toNat_ofNat, BitVec.toNat_sub, BitVec.toNat_shiftLeft,
    Nat.shiftLeft_eq, show (1 : BitVec 32).toNat = 1 from rfl]
  omega

/-- While the state machine is in `sm_idle`, no burst is going on. -/
theorem not_slwrLow_of_smIdle (h : sm inp t = .smIdle) : ¬ SlwrLow inp t := by
  intro hlow
  obtain ⟨u, rfl, hu⟩ := slwrLow_iff.mp hlow
  have hedge := sm_edge inp u
  rw [hu, h] at hedge
  cases hedge

/-- **The words written before cycle `t`** are those of the bursts that have ended. -/
theorem count_smWrite (h : sm inp t = .smIdle) :
    Nat.count (fun v ↦ sm inp v = .smWrite) t = ((completed inp t).map Prod.snd).sum := by
  have hcount := count_eq_sum_bursts (P := SlwrLow inp) (t + 1)
  rw [activeFor_of_not (not_slwrLow_of_smIdle h), Nat.count_succ',
    if_neg not_slwrLow_zero] at hcount
  simp only [slwrLow_succ, Nat.add_zero] at hcount
  exact hcount

theorem SmEdge.from_smWrite {s : SmState} (h : SmEdge .smWrite s) :
    s = .smWrite ∨ s = .smWriteWrDelay := by
  cases h <;> simp

theorem SmEdge.to_smWriteWrDelay {s : SmState} (h : SmEdge s .smWriteWrDelay) : s = .smWrite := by
  cases h; rfl

/-- **The state machine passes `sm_write_wr_delay` once for each write burst.** -/
theorem falls_slwrLow_iff : Falls (SlwrLow inp) (t + 1) ↔ sm inp t = .smWriteWrDelay := by
  rw [Falls, slwrLow_succ]
  cases t with
  | zero => simp [sm_zero, activeFor, not_slwrLow_zero]
  | succ t =>
    rw [activeFor_ne_zero_iff, slwrLow_succ]
    constructor
    · rintro ⟨hw, hw'⟩
      exact (hw' ▸ sm_edge inp t).from_smWrite.resolve_left hw
    · intro hd
      exact ⟨by simp [hd], (hd ▸ sm_edge inp t).to_smWriteWrDelay⟩

theorem count_smWriteWrDelay (t : ℕ) :
    Nat.count (fun v ↦ sm inp v = .smWriteWrDelay) t = (completed inp t).length := by
  have hzero : ¬ Falls (SlwrLow inp) 0 := fun h ↦ h.2 rfl
  rw [completed, length_bursts, Nat.count_succ', if_neg hzero]
  simp only [falls_slwrLow_iff, Nat.add_zero]

/-! ## Waiting cycles and commands -/

/-- The states between `sm_idle` and the end of a read burst. -/
def SmState.Reading (s : SmState) : Prop :=
  s = .smFlagcRcvd ∨ s = .smWaitFlagd ∨ s = .smRead ∨ s = .smReadRdAndOeDelay ∨ s = .smReadOeDelay

theorem SmState.Reading.not_waiting {s : SmState} (h : s.Reading) :
    s ≠ .smIdle ∧ ¬ (s = .smWaitFlaga ∨ s = .smWaitFlagb) := by
  rcases h with rfl | rfl | rfl | rfl | rfl <;> simp

theorem SmEdge.reading {s s' : SmState} (h : SmEdge s s') (hs' : s'.Reading) :
    s = .smIdle ∨ s.Reading := by
  cases h <;> simp_all [SmState.Reading]

/-- The counter keeps the value it has while a command is read. -/
theorem waitCtr_succ_of_reading (h : (sm inp t).Reading) :
    (regs inp (t + 1)).waitCtr = (regs inp t).waitCtr := by
  obtain ⟨hidle, hwait⟩ := h.not_waiting
  rw [waitCtr_succ, if_neg hidle, if_neg fun hw ↦ hwait (waiting_iff.mp hw)]

/-- **While a command is read, `wait_ctr` is 0.** -/
theorem waitCtr_of_reading (h : (sm inp t).Reading) : (regs inp t).waitCtr = 0 := by
  induction t with
  | zero => rfl
  | succ t ih =>
    rcases (sm_edge inp t).reading h with hs | hs
    · rw [waitCtr_succ, if_pos hs]
    · rw [waitCtr_succ_of_reading hs, ih hs]

/-! ### A single wait -/

theorem SmEdge.to_waiting {s s' : SmState} (h : SmEdge s s')
    (hs : ¬ (s = .smWaitFlaga ∨ s = .smWaitFlagb)) (hs' : s' = .smWaitFlaga ∨ s' = .smWaitFlagb) :
    s.Reading := by
  cases h <;> simp_all [SmState.Reading]

theorem SmEdge.from_waiting {s s' : SmState} (h : SmEdge s s')
    (hs : s = .smWaitFlaga ∨ s = .smWaitFlagb) (hs' : ¬ (s' = .smWaitFlaga ∨ s' = .smWaitFlagb)) :
    s' = .smWrite := by
  cases h <;> simp_all

theorem SmEdge.from_writing {s s' : SmState} (h : SmEdge s s')
    (hs : s = .smWrite ∨ s = .smWriteWrDelay) (hs' : s' ≠ .smIdle) :
    s' = .smWrite ∨ s' = .smWriteWrDelay := by
  cases h <;> simp_all

section wait

variable {w n : ℕ} (h : Burst (Waiting inp) w n)
include h

/-- When a wait begins the counter is 0. -/
theorem waitCtr_start : (regs inp w).waitCtr = 0 := by
  cases w with
  | zero => rfl
  | succ c =>
    have hs := (sm_edge inp c).to_waiting (fun hw ↦ h.before c rfl (waiting_iff.mpr hw))
      (waiting_iff.mp h.rises.holds)
    rw [waitCtr_succ_of_reading hs, waitCtr_of_reading hs]

/-- **When a wait has ended the counter is its length.** -/
theorem waitCtr_end : (regs inp (w + n)).waitCtr = BitVec.ofNat 32 n := by
  have hcount := counts (P := Waiting inp) (c := fun u ↦ (regs inp u).waitCtr) (s := w) (n := n)
    fun i hi ↦ by
      have hw := h.holds i hi
      have hidle : sm inp (w + i) ≠ .smIdle := by
        rcases waiting_iff.mp hw with hs | hs <;> simp [hs]
      rw [waitCtr_succ, if_neg hidle]
  rw [Nat.count_iff_forall.mpr fun i hi ↦ h.holds i hi, waitCtr_start h] at hcount
  rw [hcount]
  exact BitVec.zero_add _

/-- **It keeps that value** until the state machine has been in `sm_idle`. -/
theorem waitCtr_of_burst {d : ℕ} (hd : w + n ≤ d)
    (hidle : ∀ v, w + n ≤ v → v < d → sm inp v ≠ .smIdle) :
    (regs inp d).waitCtr = BitVec.ofNat 32 n := by
  have hwriting : ∀ v, w + n ≤ v → v < d → sm inp v = .smWrite ∨ sm inp v = .smWriteWrDelay := by
    intro v h1
    induction v, h1 using Nat.le_induction with
    | base =>
      intro _
      obtain ⟨m, rfl⟩ : ∃ m, n = m + 1 := ⟨n - 1, by have := h.pos; omega⟩
      refine .inl ((sm_edge inp (w + m)).from_waiting ?_ fun hw ↦ h.after (waiting_iff.mpr hw))
      exact waiting_iff.mp (h.holds m (Nat.lt_succ_self m))
    | succ v h1 ih =>
      intro h2
      exact (sm_edge inp v).from_writing (ih (by omega)) (hidle (v + 1) (by omega) h2)
  rw [eq_of_stable (f := fun v ↦ (regs inp v).waitCtr) hd fun v h1 h2 ↦ ?_, waitCtr_end h]
  have hnot : ¬ Waiting inp v := by
    rw [waiting_iff]
    rcases hwriting v h1 h2 with hs | hs <;> simp [hs]
  show (regs inp (v + 1)).waitCtr = (regs inp v).waitCtr
  rw [waitCtr_succ, if_neg (hidle v h1 h2), if_neg hnot]

end wait

/-! ### All waits of a command -/

section readBurst

variable (h : ReadBurst inp r L)
include h

/-- Until the next read burst begins, the command is the one of the last. -/
theorem ReadBurst.commandOf_eq (hrt : r ≤ t) (hq : Quiet inp (r + L) t) : commandOf inp t = r := by
  refine Nat.findGreatest_eq_iff.mpr ⟨hrt, fun _ ↦ Burst.rises h, fun u h1 h2 hu ↦ ?_⟩
  rcases Nat.lt_or_ge u (r + L) with hlt | hge
  · exact hu.before (u - 1) (by omega) (h.holds_at (by omega) (by omega))
  · exact hq u hge h2 hu.holds

/-- A command does not wait before it has been read. -/
theorem ReadBurst.not_waits_before {u : ℕ} (hu : u < r + L + 3) :
    ¬ (Waiting inp u ∧ commandOf inp u = r) := by
  rintro ⟨hw, hc⟩
  have hru : r ≤ u := hc ▸ Nat.findGreatest_le u
  have hreading : (sm inp u).Reading := by
    rcases Nat.lt_or_ge u (r + L) with hlt | hge
    · rcases slrdLow_iff.mp (h.holds_at hru hlt) with hs | hs <;> simp [SmState.Reading, hs]
    · simp [SmState.Reading, h.sm_oe hge hu]
  exact hreading.not_waiting.2 (waiting_iff.mp hw)

/-- **`wait_ctr` while a command is answered.** -/
theorem ReadBurst.waitCtr_eq (ht : r + L + 3 ≤ t)
    (hans : ∀ v, r + L + 3 ≤ v → v ≤ t → (sm inp v).Answering) :
    (regs inp t).waitCtr = BitVec.ofNat 32 (waitCycles inp t r) := by
  obtain ⟨n, rfl⟩ := Nat.exists_eq_add_of_le ht
  have hstart : (regs inp (r + L + 3)).waitCtr = 0 := by
    have hs : (sm inp (r + L + 2)).Reading := by simp [SmState.Reading, h.leaves.1]
    rw [waitCtr_succ_of_reading hs, waitCtr_of_reading hs]
  have hnone : Nat.count (fun v ↦ Waiting inp v ∧ commandOf inp v = r) (r + L + 3) = 0 :=
    Nat.count_iff_forall_not.mpr fun u hu ↦ h.not_waits_before hu
  rw [waitCycles, Nat.count_add, hnone, Nat.zero_add]
  have hcount := counts (c := fun u ↦ (regs inp u).waitCtr)
    (P := fun v ↦ Waiting inp v ∧ commandOf inp v = r) (s := r + L + 3) (n := n) fun i hi ↦ by
      have hq := h.quiet_of_answering (w := r + L + 3 + i) (by omega)
        fun v h1 h2 ↦ hans v h1 (by omega)
      have hc := h.commandOf_eq (t := r + L + 3 + i) (by omega) fun v h1 h2 ↦ hq v h1 (by omega)
      have hidle := (hans (r + L + 3 + i) (by omega) (by omega)).not_read.2.2
      rw [waitCtr_succ, if_neg hidle]
      simp only [hc, and_true]
  rw [hcount, hstart]
  exact BitVec.zero_add _

end readBurst

/-- **Whoever waits has been read.** -/
theorem commandOf_mem {v : ℕ} (hvt : v < t) (hw : Waiting inp v) :
    commandOf inp v ∈ commands inp t := by
  have hans : (sm inp v).Answering := by
    rcases waiting_iff.mp hw with hs | hs
    · exact .inl hs
    · exact .inr (.inl hs)
  obtain ⟨r, L, h, hle, -, hall⟩ := exists_readBurst_of_answering hans
  have hq := h.quiet_of_answering hle hall
  rw [h.commandOf_eq (by omega) fun u h1 h2 ↦ hq u h1 (by omega)]
  exact Finset.mem_filter.mpr ⟨Finset.mem_range.mpr (by omega), Burst.rises h⟩

/-! ## The agreement -/

/-- **The diagnostic counters agree with the commands served**, in every cycle of every run. -/
theorem countersAgree (h0 : ∀ t, (inp t).allCtrReset = false) (t : ℕ) : CountersAgree inp t where
  writeCtr h := by
    have hwords : BitVec.ofNat 32 ((completed inp t).map Prod.snd).sum =
        BitVec.ofNat 32 ((completed inp t).map fun x ↦ 4096 * packetsOf inp x.1).sum := by
      refine ofNat_sum_congr fun x hx ↦ ?_
      obtain ⟨hb, -⟩ := mem_completed.mp hx
      rw [hb.sentWith_packetsOf.2, ofNat_wordCount, packetsOf]
    rw [writeCtr_eq h0, count_smWrite h, hwords, List.sum_map_mul_left]
  txCtr _ := by rw [txCtr_eq h0, count_smWriteWrDelay]
  waitCtr h := by
    obtain ⟨r, L, hb, hle, -, hall⟩ := exists_readBurst_of_answering (.inr (.inr (.inl h)))
    have hq := hb.quiet_of_answering hle hall
    rw [hb.commandOf_eq (by omega) fun v h1 h2 ↦ hq v h1 (by omega), hb.waitCtr_eq hle hall]
  waitCtrGbl _ := by
    rw [waitCtrGbl_eq h0, count_eq_sum_keys fun v hv hw ↦ commandOf_mem hv hw]
    rfl

/-- At the end of the answer to a command for one packet. -/
theorem countersAgree_onePacket : CountersAgree onePacket 4111 :=
  countersAgree (fun _ ↦ rfl) 4111

end Fpga
end Usb3FpgaCard
