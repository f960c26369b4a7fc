import Usb3FpgaCard.Fpga.Capture
import Usb3FpgaCard.Fpga.Fields
import Usb3FpgaCard.Fpga.Strobes

/-!
# What an answer is made of

Three things go into a write burst: how many packets it has, which samples they are and which socket
each of them goes to.  All three come from the command that is answered, however little time there
was to take it in.

* The count is the command's own, in the cycle in which the decision to answer is taken and in every
  cycle in which `write_delay_cnt` is loaded (`ReadBurst.ownCount`).
* So are the channel sources, at every edge at which a sample of the answer is taken
  (`ReadBurst.ownSelection`).
* The sockets follow from the count alone (`WriteBurst.socketSchedule`).

A read burst of three words leaves no cycle to spare for the count, and one of four words none for
the sources.
-/

set_option autoImplicit false

namespace Usb3FpgaCard
namespace Fpga

open Clocked

variable {inp : ℕ → Pins} {t u a L M N : ℕ}

/-! ## A field after its command -/

/-- In a command, a field is set last by its own word. -/
theorem Field.lastSet_index {f : Field} {w : ℕ → BitVec 32} {n : ℕ} (h0 : w 0 = Regs.header)
    (hf : f.index < n) (hn : n ≤ 2 ^ 32) : f.LastSet w n f.index where
  lt := hf
  setBy := (f.setBy_iff_of_le (by omega)).mpr ⟨h0, rfl⟩
  last k h1 h2 hk := by
    have := ((f.setBy_iff_of_le (by omega)).mp hk).2
    omega

/-- **A field keeps what its word says**, if the burst has the word: from three cycles after the
burst until the next one reaches the parser. -/
theorem ReadBurst.get_config (h : ReadBurst inp t L) (h0 : word inp t 0 = Regs.header)
    (hL : L < 2 ^ 32) {f : Field} (hf : f.index < L) (hu : t + L + 3 ≤ u)
    (hq : ∀ v, t + L ≤ v → v + 4 < u → ¬ SlrdLow inp v) :
    (config inp u).get f = f.ofWord (word inp t f.index) := by
  have hlast := Field.lastSet_index h0 hf (Nat.le_of_lt hL)
  rcases Nat.eq_or_lt_of_le hu with rfl | hlt
  · rw [config_stretch h.toStretch (Burst.rises h) (Nat.le_refl L),
      Parser.get_after_of_lastSet hlast]
  · have hno : ¬ f.SetBy (word inp t) L := fun hs ↦ by
      have := ((f.setBy_iff_of_le (Nat.le_of_lt hL)).mp hs).2
      omega
    rw [h.config_after hlt hq, Parser.get_idle_after, if_neg hno,
      Parser.get_after_of_lastSet hlast]

/-- The command of `onePacket` for `N` packets instead, cut off after `n` words. -/
def cutOff (n : ℕ) (N : BitVec 32) (t : ℕ) : Pins :=
  { onePacket t with
    flagd := decide (t < n)
    dq := if t = 7 then N else (onePacket t).dq }

theorem cutOff_readBurst {n : ℕ} {N : BitVec 32} (hn : 3 ≤ n) : ReadBurst (cutOff n N) 4 n := by
  obtain ⟨k, rfl⟩ : ∃ k, n = k + 2 := ⟨n - 2, by omega⟩
  refine readBurst_of_flagd (n := k) sm_one rfl (by omega) (fun i hi ↦ ?_) ?_
  · exact decide_eq_true (by omega)
  · exact decide_eq_false (by omega)

/-! ## The count -/

/-- Whether and how much to answer is decided on the count of the read burst at `t`. -/
structure OwnCount (inp : ℕ → Pins) (t L : ℕ) : Prop where
  /-- The state machine leaves `sm_read_oe_delay` after cycle `t + L + 2`, -/
  leaves : sm inp (t + L + 2) = .smReadOeDelay ∧ sm inp (t + L + 3) ≠ .smReadOeDelay
  /-- and the count it looks at there is the second word of the burst. -/
  tested : (config inp (t + L + 2)).packetsToSend = word inp t 1
  /-- Until the next read, this is also the count `write_delay_cnt` is loaded from. -/
  loaded : ∀ u, t + L ≤ u → Quiet inp (t + L) u → sm inp u = .smWaitFlaga →
    (config inp u).packetsToSend = word inp t 1 ∧
      (regs inp (u + 1)).writeDelayCnt = (word inp t 1 <<< 12) - 1

/-- **The decision is never taken on an earlier count**, not even for the shortest burst. -/
theorem ReadBurst.ownCount (h : ReadBurst inp t L) (h0 : word inp t 0 = Regs.header)
    (hL : L < 2 ^ 32) : OwnCount inp t L where
  leaves := h.leaves
  tested := h.packetsToSend_leave h0 (Nat.le_of_lt hL)
  loaded u hu hq hsm := by
    have h3 := h.three_le
    have hge : t + L + 3 ≤ u := by
      by_contra hlt
      rw [h.sm_oe hu (by omega)] at hsm
      simp at hsm
    have hcount : (config inp u).packetsToSend = word inp t 1 :=
      h.get_config (f := .packetsToSend) h0 hL (show 1 < L by omega) hge fun v h1 h2 ↦
        hq v h1 (by omega)
    exact ⟨hcount, by rw [writeDelayCnt_succ, if_pos hsm, hcount]⟩

/-- The shortest burst is answered for its own count. -/
theorem ownCount_cutOff : OwnCount (cutOff 3 2) 4 3 :=
  ReadBurst.ownCount (cutOff_readBurst (by omega)) (by decide) (by omega)

/-! ## The sources -/

/-- A write burst of `M` cycles from cycle `a` answers the read burst at `t`: nothing else has been
read before it. -/
structure Replies (inp : ℕ → Pins) (t L a M : ℕ) : Prop where
  /-- The write burst. -/
  burst : WriteBurst inp a M
  /-- It comes after the read burst. -/
  after : t + L ≤ a
  /-- It comes before the next. -/
  quiet : Quiet inp (t + L) a

/-- The launch of an answer comes after the decision to answer, and nothing is read from there to
the end of it. -/
theorem Replies.exists_launch (hr : Replies inp t L a M) (h : ReadBurst inp t L) :
    ∃ l b, WritePhase inp l b ∧ a = b + 1 ∧ M = wordCount (packetCount inp l) ∧
      t + L + 3 ≤ l ∧ Quiet inp (t + L) (a + M) := by
  obtain ⟨l, b, hp, rfl, rfl⟩ := hr.burst.exists_launch
  have hlb := hp.lt
  obtain ⟨w, hw, -, hge, hsm, hans⟩ :=
    h.answering_of_slwrLow (by have := hr.after; omega) hr.quiet (Burst.rises hr.burst).holds
  obtain rfl : w = b := by omega
  have hl : t + L + 3 ≤ l := by
    by_contra hlt
    rcases Nat.eq_or_lt_of_le hge with heq | hlt'
    · rw [heq, hp.write] at hsm
      simp at hsm
    · rw [hp.wait _ (by omega) hlt'] at hsm
      simp at hsm
  refine ⟨l, w, hp, rfl, rfl, hl, ?_⟩
  rw [Nat.add_right_comm]
  refine h.quiet_of_answering (by omega) fun v h1 h2 ↦ ?_
  rcases Nat.lt_or_ge v l with hlt | hge'
  · exact hans v h1 (by omega)
  · exact hp.answering hge' h2

/-- Byte `n` of the write burst is the sample of edge `4 * a - 9 + n`, the `n`-th after the first in
`GapFree`, and it is taken under the channel sources that the command at `t` selects, which stay
selected to the end of the burst. -/
def OwnSelection (inp : ℕ → Pins) (t a M : ℕ) : Prop :=
  ∀ n, n < 4 * M → ∃ e, e + 9 = 4 * a + n ∧ burstByte inp a n = chDataAt inp e ∧
    ∀ c, e / 4 ≤ c → c < a + M →
      (config inp c).chSrc = (Config.ofCommand (word inp t)).chSrc

/-- While a command is being answered, and already for the samples its first word is made of, its
sources are selected. -/
theorem Replies.chSrc (hr : Replies inp t L a M) (h : ReadBurst inp t L)
    (h0 : word inp t 0 = Regs.header) (h4 : 4 ≤ L) (hL : L < 2 ^ 32) (hu : a ≤ u + 3)
    (hu' : u < a + M) : (config inp u).chSrc = (Config.ofCommand (word inp t)).chSrc := by
  obtain ⟨l, b, hp, rfl, rfl, hl, hq⟩ := hr.exists_launch h
  have hlb := hp.lt
  funext k
  have hk : (Field.chSrc k).index < L := by
    rw [Field.index]
    split <;> omega
  have hget := h.get_config (f := .chSrc k) h0 hL hk (by omega : t + L + 3 ≤ u) fun v h1 h2 ↦
    hq v h1 (by omega)
  refine hget.trans ?_
  rw [Field.ofWord, Field.index, Config.ofCommand]
  by_cases hlow : k.val < 4 <;> simp [hlow]

/-- **Every transmitted sample was taken under the command's own selection.** -/
theorem ReadBurst.ownSelection (h : ReadBurst inp t L) (h0 : word inp t 0 = Regs.header)
    (h4 : 4 ≤ L) (hL : L < 2 ^ 32) (hr : Replies inp t L a M) : OwnSelection inp t a M := by
  intro n hn
  have ha := hr.burst.three_le
  refine ⟨4 * a - 9 + n, by omega, hr.burst.burstByte_eq hn, fun c h1 h2 ↦ ?_⟩
  exact hr.chSrc h h0 h4 hL (by omega) h2

theorem cutOff_writePhase : WritePhase (cutOff 4 2) 11 13 :=
  Launch.writePhase ⟨by decide, by decide⟩ rfl

theorem cutOff_wordCount : wordCount (packetCount (cutOff 4 2) 11) = 4096 * 2 := by
  rw [show packetCount (cutOff 4 2) 11 = 2 by decide, wordCount_eq (by decide) (by decide)]
  rfl

theorem cutOff_writeBurst : WriteBurst (cutOff 4 2) 14 (4096 * 2) :=
  cutOff_wordCount ▸ cutOff_writePhase.writeBurst

/-- The answer to the shortest command that selects all sources. -/
theorem ownSelection_cutOff : OwnSelection (cutOff 4 2) 4 14 (4096 * 2) :=
  ReadBurst.ownSelection (cutOff_readBurst (by omega)) (by decide) (by omega) (by omega)
    ⟨cutOff_writeBurst, by omega, fun v h1 h2 ↦ by
      have hquiet : ∀ v, v < 15 → 8 ≤ v → ¬ SlrdLow (cutOff 4 2) v := by decide
      exact hquiet v (by omega) h1⟩

/-! ## The sockets -/

/-- The write burst from cycle `a` is sent with `packets_to_send = N`: that is the count its launch
takes. -/
def SentWith (inp : ℕ → Pins) (a N : ℕ) : Prop :=
  ∃ l b, WritePhase inp l b ∧ a = b + 1 ∧ (packetCount inp l).toNat = N

/-- Which words of a write burst of `N` packets go where. -/
structure SocketSchedule (inp : ℕ → Pins) (a M N : ℕ) : Prop where
  /-- The burst is `N` blocks of 4096 words. -/
  length : M = 4096 * N
  /-- The socket of every word. -/
  addr : ∀ j, j < 4096 * N → (addr inp (a + j)).toNat = (N - 1 - j / 4096) % 2
  /-- A block goes to a single socket. -/
  block : ∀ i j, i < 4096 * N → j < 4096 * N → i / 4096 = j / 4096 →
    Fpga.addr inp (a + i) = Fpga.addr inp (a + j)
  /-- Consecutive blocks go to different sockets, which are 0 and 1. -/
  alternate : ∀ i j, i < 4096 * N → j < 4096 * N → i / 4096 + 1 = j / 4096 →
    Fpga.addr inp (a + i) = 0 ∧ Fpga.addr inp (a + j) = 1 ∨
      Fpga.addr inp (a + i) = 1 ∧ Fpga.addr inp (a + j) = 0
  /-- The last block goes to socket 0. -/
  last : ∀ j, j < 4096 * N → j / 4096 + 1 = N → Fpga.addr inp (a + j) = 0
  /-- The address is there a cycle before the first strobe. -/
  before : ∃ s, s + 1 = a ∧ ¬ SlwrLow inp s ∧ Fpga.addr inp s = Fpga.addr inp a

/-- The address settles with the last load of the counter, before the state machine is in
`sm_write`. -/
theorem WritePhase.addr_before {l b : ℕ} (h : WritePhase inp l b) :
    addr inp b = addr inp (b + 1) := by
  have hlt := h.lt
  obtain ⟨c, rfl⟩ : ∃ c, b = c + 1 := ⟨b - 1, by omega⟩
  have hc : sm inp c = .smWaitFlagb := h.wait c (by omega) (Nat.lt_succ_self c)
  refine BitVec.eq_of_toNat_eq ?_
  rw [addr_succ_toNat (.inl hc), addr_succ_toNat (.inr h.write), writeDelayCnt_of_smWaitFlagb hc]

theorem addr_eq_of_toNat {n : ℕ} (h : (addr inp u).toNat = n) : addr inp u = BitVec.ofNat 2 n := by
  rw [← h, BitVec.ofNat_toNat, BitVec.setWidth_eq]

/-- **The socket schedule of a write burst**, whatever the counter held before. -/
theorem WriteBurst.socketSchedule (h : WriteBurst inp a M) (hN : SentWith inp a N) (h1 : 1 ≤ N)
    (h2 : N ≤ 2 ^ 20) : SocketSchedule inp a M N := by
  obtain ⟨l, b, hp, rfl, rfl⟩ := hN
  have hM : M = 4096 * (packetCount inp l).toNat := by
    rw [Burst.length_unique h hp.writeBurst, wordCount_eq h1 h2]
  subst hM
  have haddr := fun j (hj : j < 4096 * (packetCount inp l).toNat) ↦ h.addr_eq hj
  refine ⟨rfl, haddr, fun i j hi hj hij ↦ ?_, fun i j hi hj hij ↦ ?_, fun j hj hlast ↦ ?_,
    b, rfl, h.before b rfl, hp.addr_before⟩
  · refine BitVec.eq_of_toNat_eq ?_
    rw [haddr i hi, haddr j hj, hij]
  · have hi' := haddr i hi
    have hj' := haddr j hj
    rcases Nat.mod_two_eq_zero_or_one ((packetCount inp l).toNat - 1 - i / 4096) with h0 | h0
    · exact .inl ⟨addr_eq_of_toNat (n := 0) (by omega), addr_eq_of_toNat (n := 1) (by omega)⟩
    · exact .inr ⟨addr_eq_of_toNat (n := 1) (by omega), addr_eq_of_toNat (n := 0) (by omega)⟩
  · have := haddr j hj
    exact addr_eq_of_toNat (n := 0) (by omega)

/-- A burst of two packets: the first goes to socket 1 and the second to socket 0. -/
theorem socketSchedule_cutOff : SocketSchedule (cutOff 4 2) 14 (4096 * 2) 2 :=
  cutOff_writeBurst.socketSchedule ⟨11, 13, cutOff_writePhase, rfl, by decide⟩ (by omega) (by omega)

end Fpga
end Usb3FpgaCard
