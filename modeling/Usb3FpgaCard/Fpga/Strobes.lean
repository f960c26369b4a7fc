import Usb3FpgaCard.Fpga.Transmit

/-!
# What the card writes

`strobes inp t` is the log of everything strobed with `SLWR` before cycle `t`: the cycle, the
address and the word.  The log grows by one write burst after another, and a burst for `N` packets
is `N` blocks of 4096 words.

`gpif_address` takes the socket from bit 12 of the counter that runs down from `4096 * N - 1`, so
the blocks of a burst alternate between the sockets and the *last* one goes to socket 0
(`WriteBurst.addr_eq`).  Where the first one goes depends on `N`.
-/

set_option autoImplicit false

namespace Usb3FpgaCard
namespace Fpga

open Clocked

variable {inp : ℕ → Pins} {t u a M N : ℕ}

/-! ## The log -/

/-- One word written to the slave FIFO. -/
@[ext] structure Strobe where
  /-- The cycle in which `SLWR` was low. -/
  cycle : ℕ
  /-- `ADDR`. -/
  addr : BitVec 2
  /-- `DQ`. -/
  word : BitVec 32
  deriving DecidableEq

/-- The socket of the FX3 that is written: GPIF thread and socket have the number of the
address. -/
def Strobe.socket (s : Strobe) : ℕ := s.addr.toNat

/-- What is written in cycle `t`. -/
def strobeAt (inp : ℕ → Pins) (t : ℕ) : Option Strobe :=
  if SlwrLow inp t then some { cycle := t, addr := addr inp t, word := dq inp t } else none

/-- What is written before cycle `t`, in order. -/
def strobes (inp : ℕ → Pins) : ℕ → List Strobe
  | 0 => []
  | t + 1 => strobes inp t ++ (strobeAt inp t).toList

/-- The number of words written before cycle `t`. -/
def strobeCount (inp : ℕ → Pins) (t : ℕ) : ℕ := (strobes inp t).length

theorem strobeAt_of_slwrLow (h : SlwrLow inp t) :
    strobeAt inp t = some { cycle := t, addr := addr inp t, word := dq inp t } := if_pos h

theorem strobeAt_of_not_slwrLow (h : ¬ SlwrLow inp t) : strobeAt inp t = none := if_neg h

theorem strobeCount_of_slwrLow (h : SlwrLow inp t) :
    strobeCount inp (t + 1) = strobeCount inp t + 1 := by
  rw [strobeCount, strobes, strobeAt_of_slwrLow h, Option.toList_some, List.length_append,
    List.length_singleton, strobeCount]

theorem strobeCount_of_not_slwrLow (h : ¬ SlwrLow inp t) :
    strobeCount inp (t + 1) = strobeCount inp t := by
  rw [strobeCount, strobes, strobeAt_of_not_slwrLow h, Option.toList_none, List.append_nil,
    strobeCount]

/-- The log depends on the pins before cycle `t` alone. -/
theorem strobes_congr {p q : ℕ → Pins} (h : ∀ u, u < t → p u = q u) :
    strobes p t = strobes q t := by
  induction t with
  | zero => rfl
  | succ t ih =>
    have hregs : regs p t = regs q t :=
      congrArg State.regs (Machine.run_congr fun u hu ↦ h u (Nat.lt_succ_of_lt hu))
    have hlow : SlwrLow p t ↔ SlwrLow q t := by rw [SlwrLow, SlwrLow, hregs]
    have hstrobe : strobeAt p t = strobeAt q t := by
      simp only [strobeAt, hlow, addr, dq, hregs, h t (Nat.lt_succ_self t)]
    rw [strobes, strobes, ih fun u hu ↦ h u (Nat.lt_succ_of_lt hu), hstrobe]

theorem strobes_isPrefix (h : t ≤ u) : (strobes inp t).IsPrefix (strobes inp u) := by
  induction u with
  | zero =>
    obtain rfl := Nat.le_zero.mp h
    exact List.prefix_rfl
  | succ u ih =>
    rcases Nat.eq_or_lt_of_le h with rfl | hlt
    · exact List.prefix_rfl
    · exact (ih (Nat.le_of_lt_succ hlt)).trans (List.prefix_append _ _)

/-- Everything in the log was on the pins. -/
theorem mem_strobes {x : Strobe} (h : x ∈ strobes inp t) :
    x.cycle < t ∧ SlwrLow inp x.cycle ∧ x.addr = addr inp x.cycle ∧ x.word = dq inp x.cycle := by
  induction t with
  | zero => exact absurd h List.not_mem_nil
  | succ t ih =>
    rcases List.mem_append.mp h with h | h
    · obtain ⟨hlt, hx⟩ := ih h
      exact ⟨Nat.lt_succ_of_lt hlt, hx⟩
    · by_cases hw : SlwrLow inp t
      · rw [strobeAt_of_slwrLow hw] at h
        obtain rfl := List.mem_singleton.mp h
        exact ⟨Nat.lt_succ_self t, hw, rfl, rfl⟩
      · rw [strobeAt_of_not_slwrLow hw] at h
        exact absurd h List.not_mem_nil

/-- What is strobed in cycle `u` stands behind everything strobed before. -/
theorem getElem?_strobes (h : SlwrLow inp u) (hut : u < t) :
    (strobes inp t)[strobeCount inp u]? =
      some { cycle := u, addr := addr inp u, word := dq inp u } := by
  obtain ⟨rest, hrest⟩ : (strobes inp (u + 1)).IsPrefix (strobes inp t) :=
    strobes_isPrefix (Nat.succ_le_of_lt hut)
  rw [← hrest, strobes, strobeAt_of_slwrLow h, Option.toList_some, List.append_assoc, strobeCount,
    List.getElem?_append_right (Nat.le_refl _), Nat.sub_self]
  rfl

/-- Every place in the log belongs to a cycle. -/
theorem exists_strobe {j : ℕ} (hj : j < strobeCount inp t) :
    ∃ u, u < t ∧ SlwrLow inp u ∧ strobeCount inp u = j := by
  induction t with
  | zero => exact absurd hj (Nat.not_lt_zero j)
  | succ t ih =>
    by_cases hw : SlwrLow inp t
    · rw [strobeCount_of_slwrLow hw] at hj
      rcases Nat.lt_succ_iff_lt_or_eq.mp hj with hlt | rfl
      · obtain ⟨u, hut, hu⟩ := ih hlt
        exact ⟨u, Nat.lt_succ_of_lt hut, hu⟩
      · exact ⟨t, Nat.lt_succ_self t, hw, rfl⟩
    · rw [strobeCount_of_not_slwrLow hw] at hj
      obtain ⟨u, hut, hu⟩ := ih hj
      exact ⟨u, Nat.lt_succ_of_lt hut, hu⟩

/-! ## Bursts in the log -/

theorem strobeCount_eq_of_not_slwrLow (htu : t ≤ u)
    (h : ∀ v, t ≤ v → v < u → ¬ SlwrLow inp v) : strobeCount inp u = strobeCount inp t :=
  eq_of_stable htu fun v h1 h2 ↦ strobeCount_of_not_slwrLow (h v h1 h2)

/-- Every strobe belongs to a write burst. -/
theorem exists_writeBurst (h : SlwrLow inp u) : ∃ a M, WriteBurst inp a M ∧ a ≤ u ∧ u < a + M := by
  obtain ⟨w, rfl, hw⟩ := slwrLow_iff.mp h
  obtain ⟨l, b, hp, hbw, hall⟩ := exists_launch hw
  refine ⟨b + 1, _, hp.writeBurst, by omega, ?_⟩
  by_contra hlt
  have hend := hp.sm_end
  rw [hall _ (by omega) (by omega)] at hend
  simp at hend

theorem WriteBurst.strobeCount_add (h : WriteBurst inp a M) {i : ℕ} (hi : i ≤ M) :
    strobeCount inp (a + i) = strobeCount inp a + i := by
  induction i with
  | zero => rfl
  | succ i ih =>
    rw [← Nat.add_assoc, strobeCount_of_slwrLow (h.holds i hi), ih (Nat.le_of_succ_le hi)]
    rfl

/-- Cycle `t` does not fall inside a write burst. -/
def Between (inp : ℕ → Pins) (t : ℕ) : Prop :=
  ¬ SlwrLow inp t ∨ ∀ b, b + 1 = t → ¬ SlwrLow inp b

theorem WriteBurst.between (h : WriteBurst inp a M) : Between inp a := .inr h.before

/-- **The log between two bursts** ends with the last burst before, if there is one. -/
theorem strobeCount_of_between (ht : Between inp t) :
    (strobeCount inp t = 0 ∧ ∀ a M, WriteBurst inp a M → t ≤ a) ∨
    ∃ a M, WriteBurst inp a M ∧ a < t ∧ strobeCount inp t = strobeCount inp a + M := by
  induction t with
  | zero => exact .inl ⟨rfl, fun a _ _ ↦ Nat.zero_le a⟩
  | succ t ih =>
    by_cases hw : SlwrLow inp t
    · obtain ⟨a, M, hb, hat, htM⟩ := exists_writeBurst hw
      have hend : t + 1 = a + M := by
        rcases ht with ht | ht
        · by_contra hne
          exact ht (hb.holds_at (by omega) (by omega))
        · exact absurd hw (ht t rfl)
      exact .inr ⟨a, M, hb, by omega, by rw [hend, hb.strobeCount_add (Nat.le_refl M)]⟩
    · rw [strobeCount_of_not_slwrLow hw]
      rcases ih (.inl hw) with ⟨h0, hno⟩ | ⟨a, M, hb, hat, hc⟩
      · refine .inl ⟨h0, fun a M hb ↦ Nat.lt_of_le_of_ne (hno a M hb) fun heq ↦ hw ?_⟩
        exact heq ▸ hb.holds 0 hb.pos
      · exact .inr ⟨a, M, hb, Nat.lt_succ_of_lt hat, hc⟩

/-! ## Packets and sockets -/

/-- Every packet count that is launched is one the counter can take: between 1 and 2^20. -/
def CountsInRange (inp : ℕ → Pins) : Prop :=
  ∀ l, Launch inp l → 1 ≤ (packetCount inp l).toNat ∧ (packetCount inp l).toNat ≤ 2 ^ 20

/-- **A write burst is a whole number of packets.** -/
theorem WriteBurst.exists_packets (hN : CountsInRange inp) (h : WriteBurst inp a M) :
    ∃ N, 1 ≤ N ∧ N ≤ 2 ^ 20 ∧ M = 4096 * N := by
  obtain ⟨l, b, hp, -, hM⟩ := h.exists_launch
  obtain ⟨h1, h2⟩ := hN l hp.launch
  exact ⟨(packetCount inp l).toNat, h1, h2, by rw [hM, wordCount_eq h1 h2]⟩

/-- Outside a read the socket is told by bit 12 of the counter. -/
theorem addr_succ_toNat (h : sm inp u = .smWaitFlagb ∨ sm inp u = .smWrite) :
    (addr inp (u + 1)).toNat = (regs inp u).writeDelayCnt.toNat / 4096 % 2 := by
  have hread : ¬ ((regs inp u).currentSmState = .smFlagcRcvd ∨
      (regs inp u).currentSmState = .smWaitFlagd ∨ (regs inp u).currentSmState = .smRead ∨
      (regs inp u).currentSmState = .smReadRdAndOeDelay ∨
      (regs inp u).currentSmState = .smReadOeDelay) := by
    rcases h with h | h <;> rw [sm] at h <;> simp [h]
  rw [addr_succ, Regs.gpifAddress, if_neg hread,
    show (regs inp u).writeDelayCnt.getLsbD 12 = (regs inp u).writeDelayCnt.toNat.testBit 12 from
      rfl, Nat.testBit_eq_decide_div_mod_eq]
  rcases Nat.mod_two_eq_zero_or_one ((regs inp u).writeDelayCnt.toNat / 4096) with h0 | h1
  · rw [h0, if_neg (by simp)]
    rfl
  · rw [h1, if_pos (by simp)]
    rfl

/-- The socket of word `i` of a burst is told by bit 12 of the number of words left after it. -/
theorem WriteBurst.addr_toNat (h : WriteBurst inp a M) {i : ℕ} (hi : i < M) :
    (addr inp (a + i)).toNat = (M - 1 - i) / 4096 % 2 := by
  obtain ⟨l, b, hp, rfl, rfl⟩ := h.exists_launch
  obtain ⟨hs, hc⟩ := hp.run hi
  have hleft : wordCount (packetCount inp l) - 1 - i =
      (regs inp (b + i)).writeDelayCnt.toNat := by omega
  rw [show b + 1 + i = b + i + 1 by omega, addr_succ_toNat (.inr hs), hleft]

/-- **The socket of each block.**  In a burst of `N` packets, word `i` goes to socket
`(N - 1 - i / 4096) % 2`: the blocks alternate, and the last goes to socket 0. -/
theorem WriteBurst.addr_eq (h : WriteBurst inp a (4096 * N)) {i : ℕ} (hi : i < 4096 * N) :
    (addr inp (a + i)).toNat = (N - 1 - i / 4096) % 2 := by
  rw [h.addr_toNat hi, show (4096 * N - 1 - i) / 4096 = N - 1 - i / 4096 by omega]

end Fpga
end Usb3FpgaCard
