import Mathlib.Algebra.GroupWithZero.Nat
import Usb3FpgaCard.Fpga.Command
import Usb3FpgaCard.Fpga.Strobes

/-!
# Commands in a row

A host that sends its next command as soon as the card is idle again, while all flags stay high.
`sending ns` is what it does for the packet counts `ns`, and the card answers all of them, one
after the other, with nothing in between (`writeBurst_sending_iff`).

So for every list of packet counts there is a run in which the card launches these and no others.
-/

set_option autoImplicit false

namespace Usb3FpgaCard
namespace Fpga

open Clocked

variable {inp : ℕ → Pins} {n : BitVec 32} {ns : List (BitVec 32)} {t u l a M k : ℕ}

/-! ## The pins -/

/-- Cycle `i` of a command for `n` packets: its header and its count are read, and three more
words. -/
def asking (n : BitVec 32) (i : ℕ) : Pins where
  flaga := true
  flagb := true
  flagc := true
  flagd := decide (2 ≤ i ∧ i < 5)
  dq := if i = 6 then Regs.header else if i = 7 then n else 0
  pb := fun _ ↦ 0
  allCtrReset := false

/-- The number of cycles until the card is idle again. -/
def duration (n : BitVec 32) : ℕ := 4096 * n.toNat + 14

/-- One command after the other. -/
def sending : List (BitVec 32) → ℕ → Pins
  | [], _ => asking 0 0
  | n :: ns, i => if i < duration n then asking n i else sending ns (i - duration n)

/-- The cycle that command `k` starts with. -/
def startOf (ns : List (BitVec 32)) (k : ℕ) : ℕ := ((ns.take k).map duration).sum

/-- The pins are those of the commands from cycle `t` on. -/
def Follows (inp : ℕ → Pins) (t : ℕ) (ns : List (BitVec 32)) : Prop :=
  ∀ i, inp (t + i) = sending ns i

theorem Follows.asking (h : Follows inp t (n :: ns)) {i : ℕ} (hi : i < duration n) :
    inp (t + i) = asking n i := (h i).trans (if_pos hi)

theorem Follows.tail (h : Follows inp t (n :: ns)) : Follows inp (t + duration n) ns := by
  intro i
  rw [Nat.add_assoc, h, sending, if_neg (by omega), Nat.add_sub_cancel_left]

theorem startOf_cons_succ (n : BitVec 32) (ns : List (BitVec 32)) (k : ℕ) :
    startOf (n :: ns) (k + 1) = duration n + startOf ns k := rfl

theorem startOf_succ (hk : k < ns.length) : startOf ns (k + 1) = startOf ns k + duration ns[k] := by
  rw [startOf, List.take_succ_eq_append_getElem hk, List.map_append, List.sum_append, startOf,
    List.map_singleton, List.sum_singleton]

theorem startOf_mono (ns : List (BitVec 32)) {j : ℕ} (hjk : j ≤ k) :
    startOf ns j ≤ startOf ns k := by
  obtain ⟨m, rfl⟩ := Nat.exists_eq_add_of_le hjk
  rw [startOf, startOf, List.take_add, List.map_append, List.sum_append]
  exact Nat.le_add_right _ _

theorem flags_sending (ns : List (BitVec 32)) (t : ℕ) :
    (sending ns t).flaga = true ∧ (sending ns t).flagb = true := by
  induction ns generalizing t with
  | nil => exact ⟨rfl, rfl⟩
  | cons n ns ih =>
    rw [sending]
    split
    · exact ⟨rfl, rfl⟩
    · exact ih _

/-! ## One command -/

/-- What the card does with a command for `n` packets from cycle `t` on. -/
structure Answered (inp : ℕ → Pins) (t : ℕ) (n : BitVec 32) : Prop where
  read : ReadBurst inp (t + 4) 5
  write : WritePhase inp (t + 12) (t + 14)
  count : packetCount inp (t + 12) = n
  /-- It is idle again. -/
  idle : sm inp (t + duration n + 1) = .smIdle

/-- **A command is answered at once.** -/
theorem Follows.answered (h : Follows inp t (n :: ns)) (hidle : sm inp (t + 1) = .smIdle)
    (h1 : 1 ≤ n.toNat) (h2 : n.toNat ≤ 2 ^ 20) : Answered inp t n := by
  have hpins : ∀ i, i < 14 → inp (t + i) = Fpga.asking n i := fun i hi ↦
    h.asking (by rw [duration]; omega)
  have hread : ReadBurst inp (t + 4) 5 := by
    refine readBurst_of_flagd (n := 3) hidle ?_ (by omega) (fun i hi ↦ ?_) ?_
    · exact congrArg Pins.flagc (hpins 0 (by omega))
    · rw [Nat.add_assoc, hpins _ (by omega)]
      exact decide_eq_true (by omega)
    · rw [Nat.add_assoc, hpins _ (by omega)]
      rfl
  have h0 : word inp (t + 4) 0 = Regs.header := by
    rw [hread.word_eq (by omega), Nat.add_assoc, Nat.add_assoc, hpins _ (by omega)]
    rfl
  have hcount : word inp (t + 4) 1 = n := by
    rw [hread.word_eq (by omega), Nat.add_assoc, Nat.add_assoc, hpins _ (by omega)]
    rfl
  have hne : n ≠ 0 := fun h0 ↦ by simp [h0] at h1
  have hwait : sm inp (t + 12) = .smWaitFlaga := by
    have hleave := hread.sm_leave_of_header h0 (by omega)
    rwa [hcount, if_neg hne] at hleave
  have hlaunch : Launch inp (t + 12) := by
    refine ⟨hwait, ?_⟩
    rw [sm_next_smWaitFlaga hwait, flagaD_succ (t := t + 11), hpins 11 (by omega)]
    rfl
  have hwrite := hlaunch.writePhase (by rw [hpins 12 (by omega)]; rfl)
  have hconfig : packetCount inp (t + 12) = n := by
    rw [packetCount, hread.config_of_header h0 (Nat.le_refl 5) (by omega) (Nat.le_refl _)
      fun v hv hv' ↦ absurd hv' (by omega)]
    exact hcount
  refine ⟨hread, hwrite, hconfig, ?_⟩
  have hend := hwrite.sm_idle
  rw [hconfig, wordCount_eq h1 h2] at hend
  rwa [duration, ← Nat.add_assoc, Nat.add_right_comm t]

/-- A launch after a cycle in which the card is idle comes from a word that is offered after it. -/
theorem Launch.exists_readBurst (h : Launch inp l) (hidle : sm inp (t + 1) = .smIdle)
    (htl : t < l) :
    ∃ v L, ReadBurst inp (v + 2) L ∧ t + 2 ≤ v ∧ (inp v).flagd = true ∧ v + 2 + L + 3 ≤ l ∧
      ∀ u, v + 2 + L + 3 ≤ u → u ≤ l → (sm inp u).Answering := by
  obtain ⟨s, L, hb, hle, -, hans⟩ := exists_readBurst_of_answering (.inl h.waitFlaga)
  have hrises := Burst.rises hb
  obtain ⟨w, rfl⟩ : ∃ w, s = w + 4 := ⟨s - 4, by have := four_le_of_rises hrises; omega⟩
  obtain ⟨h3, h2, -⟩ := sm_before_rises hrises
  have hflagd := sm_next_smWaitFlagd h3
  rw [sm_of_rises hrises, flagdD_succ] at hflagd
  refine ⟨w + 2, L, hb, ?_, ?_, hle, hans⟩
  · by_contra hlt
    rcases Nat.lt_or_ge (t + 1) (w + 4 + L + 3) with hbefore | hafter
    · rcases Nat.lt_or_ge (t + 1) (w + 4) with hlt' | hge
      · -- the cycle in which the card is idle is one of the two before the burst
        obtain rfl | rfl : t = w + 1 ∨ t = w + 2 := by omega
        · rcases h2 with h2 | h2 <;> simp [hidle] at h2
        · simp [hidle] at h3
      · rcases Nat.lt_or_ge (t + 1) (w + 4 + L) with hin | hout
        · rcases slrdLow_iff.mp (hb.holds_at hge hin) with hs | hs <;> simp [hidle] at hs
        · simp [hb.sm_oe hout hbefore] at hidle
    · exact (hans (t + 1) hafter (by omega)).not_read.2.2 hidle
  · by_contra hlow
    rw [if_neg hlow] at hflagd
    simp at hflagd

/-! ## All commands -/

section all

variable (hns : ∀ n ∈ ns, 1 ≤ n.toNat ∧ n.toNat ≤ 2 ^ 20)
include hns

/-- **Every command is answered.** -/
theorem Follows.answered_getElem (h : Follows inp t ns) (hidle : sm inp (t + 1) = .smIdle)
    (hk : k < ns.length) : Answered inp (t + startOf ns k) ns[k] := by
  induction ns generalizing t k with
  | nil => exact absurd hk (Nat.not_lt_zero k)
  | cons n ns ih =>
    obtain ⟨h1, h2⟩ := hns n List.mem_cons_self
    have ha := h.answered hidle h1 h2
    cases k with
    | zero => exact ha
    | succ k =>
      rw [startOf_cons_succ, ← Nat.add_assoc]
      exact ih (fun m hm ↦ hns m (List.mem_cons_of_mem n hm)) h.tail ha.idle _

/-- **Nothing else is launched.** -/
theorem Follows.launch (h : Follows inp t ns) (hidle : sm inp (t + 1) = .smIdle)
    (hl : Launch inp l) (htl : t < l) : ∃ k, k < ns.length ∧ l = t + startOf ns k + 12 := by
  induction ns generalizing t with
  | nil =>
    obtain ⟨v, L, -, hv, hflagd, -⟩ := hl.exists_readBurst hidle htl
    obtain ⟨i, rfl⟩ := Nat.exists_eq_add_of_le (Nat.le_of_add_right_le hv)
    rw [h] at hflagd
    exact absurd hflagd Bool.false_ne_true
  | cons n ns ih =>
    obtain ⟨h1, h2⟩ := hns n List.mem_cons_self
    have ha := h.answered hidle h1 h2
    rcases Nat.lt_or_ge (t + duration n) l with hlt | hge
    · obtain ⟨k, hk, rfl⟩ := ih (fun m hm ↦ hns m (List.mem_cons_of_mem n hm)) h.tail ha.idle hlt
      refine ⟨k + 1, Nat.succ_lt_succ hk, ?_⟩
      rw [startOf_cons_succ, ← Nat.add_assoc]
    · refine ⟨0, Nat.succ_pos _, ?_⟩
      obtain ⟨v, L, hb, hv, hflagd, hle, hans⟩ := hl.exists_readBurst hidle htl
      obtain ⟨i, rfl⟩ := Nat.exists_eq_add_of_le (Nat.le_of_add_right_le hv)
      rw [h.asking (by omega)] at hflagd
      obtain ⟨hi, hi'⟩ : 2 ≤ i ∧ i < 5 := of_decide_eq_true hflagd
      have hpos := hb.pos
      obtain ⟨hstart, rfl⟩ := Burst.eq_of_mem hb ha.read (u := t + i + 2) (Nat.le_refl _) (by omega)
        (by omega) (by omega)
      exact ha.write.launch_eq hl (by omega) fun u hu ↦ hans u (by omega)

end all

/-! ## The run -/

section run

variable (hns : ∀ n ∈ ns, 1 ≤ n.toNat ∧ n.toNat ≤ 2 ^ 20)
include hns

theorem answered_sending (hk : k < ns.length) : Answered (sending ns) (startOf ns k) ns[k] := by
  have h : Follows (sending ns) 0 ns := fun i ↦ by rw [Nat.zero_add]
  have ha := h.answered_getElem hns sm_one hk
  rwa [Nat.zero_add] at ha

/-- The launches of the run. -/
theorem launch_sending (hl : Launch (sending ns) l) :
    ∃ k, ∃ hk : k < ns.length, l = startOf ns k + 12 ∧ packetCount (sending ns) l = ns[k] := by
  have h : Follows (sending ns) 0 ns := fun i ↦ by rw [Nat.zero_add]
  have hpos : 0 < l := by
    rcases Nat.eq_zero_or_pos l with rfl | hpos
    · exact absurd hl.waitFlaga (by simp [sm_zero])
    · exact hpos
  obtain ⟨k, hk, rfl⟩ := h.launch hns sm_one hl hpos
  rw [Nat.zero_add]
  exact ⟨k, hk, rfl, (answered_sending hns hk).count⟩

theorem countsInRange_sending : CountsInRange (sending ns) := fun l hl ↦ by
  obtain ⟨k, hk, -, hcount⟩ := launch_sending hns hl
  rw [hcount]
  exact hns _ (List.getElem_mem hk)

/-- **The commands are answered one after the other**, and nothing else is sent. -/
theorem writeBurst_sending_iff :
    WriteBurst (sending ns) a M ↔
      ∃ k, ∃ hk : k < ns.length, a = startOf ns k + 15 ∧ M = 4096 * ns[k].toNat := by
  have hwords : ∀ k (hk : k < ns.length),
      wordCount (packetCount (sending ns) (startOf ns k + 12)) = 4096 * ns[k].toNat := by
    intro k hk
    obtain ⟨h1, h2⟩ := hns _ (List.getElem_mem hk)
    rw [(answered_sending hns hk).count, wordCount_eq h1 h2]
  constructor
  · intro hb
    obtain ⟨l, b, hp, rfl, rfl⟩ := hb.exists_launch
    obtain ⟨k, hk, rfl, -⟩ := launch_sending hns hp.launch
    obtain rfl := hp.eq (answered_sending hns hk).write
    exact ⟨k, hk, rfl, hwords k hk⟩
  · rintro ⟨k, hk, rfl, rfl⟩
    rw [← hwords k hk]
    exact (answered_sending hns hk).write.writeBurst

/-- Nothing is strobed between two answers. -/
theorem not_slwrLow_sending (h1 : startOf ns k < u) (h2 : u < startOf ns k + 15) :
    ¬ SlwrLow (sending ns) u := by
  intro hlow
  obtain ⟨a, M, hb, hau, huM⟩ := exists_writeBurst hlow
  obtain ⟨j, hj, rfl, rfl⟩ := (writeBurst_sending_iff hns).mp hb
  rcases Nat.lt_or_ge j k with hjk | hkj
  · have hmono := startOf_mono ns (Nat.succ_le_of_lt hjk)
    rw [startOf_succ hj, duration] at hmono
    omega
  · have hmono := startOf_mono ns hkj
    omega

/-- The log between two answers. -/
theorem strobeCount_sending (hk : k ≤ ns.length) :
    strobeCount (sending ns) (startOf ns k + 15) = 4096 * ((ns.take k).map BitVec.toNat).sum := by
  have hconst : ∀ k, strobeCount (sending ns) (startOf ns k + 15) =
      strobeCount (sending ns) (startOf ns k + 1) := fun k ↦
    strobeCount_eq_of_not_slwrLow (by omega) fun v h1 h2 ↦
      not_slwrLow_sending hns (by omega) h2
  induction k with
  | zero => exact (hconst 0).trans (strobeCount_of_not_slwrLow (t := 0) not_slwrLow_zero)
  | succ k ih =>
    have hb := (writeBurst_sending_iff hns).mpr ⟨k, hk, rfl, rfl⟩
    have hend : startOf ns (k + 1) + 1 = startOf ns k + 15 + 4096 * ns[k].toNat := by
      rw [startOf_succ hk, duration]
      omega
    rw [hconst, hend, hb.strobeCount_add (Nat.le_refl _), ih (Nat.le_of_succ_le hk),
      List.take_succ_eq_append_getElem hk, List.map_append, List.sum_append, List.map_singleton,
      List.sum_singleton, Nat.mul_add]

/-- There are no other words. -/
theorem strobeCount_sending_le (u : ℕ) :
    strobeCount (sending ns) u ≤ 4096 * (ns.map BitVec.toNat).sum := by
  have hend := strobeCount_sending hns (Nat.le_refl ns.length)
  rw [List.take_length] at hend
  rw [← hend]
  rcases Nat.le_total u (startOf ns ns.length + 15) with hle | hge
  · exact (strobes_isPrefix hle).length_le
  · refine Nat.le_of_eq (strobeCount_eq_of_not_slwrLow hge fun v h1 _ hlow ↦ ?_)
    obtain ⟨a, M, hb, -, hlt⟩ := exists_writeBurst hlow
    obtain ⟨k, hk, rfl, rfl⟩ := (writeBurst_sending_iff hns).mp hb
    have hmono := startOf_mono ns (Nat.succ_le_of_lt hk)
    rw [startOf_succ hk, duration] at hmono
    omega

end run

end Fpga
end Usb3FpgaCard
