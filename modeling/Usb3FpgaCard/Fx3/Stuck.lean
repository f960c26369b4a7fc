import Usb3FpgaCard.Clocked.Counting
import Usb3FpgaCard.Fx3.Board

/-!
# Packets that stay in the card's sockets

A burst of an odd number of packets has one packet more for socket 0 than for socket 1, since every
burst ends at socket 0.  The DMA channel takes buffers from the two in turn.  So from the second odd
burst on, each leaves one more packet in socket 0 that the host does not get
(`stuck`).  With four buffers in a socket, the sixth odd burst since the channel was made overruns
socket 0, however fast the USB side is (`oddBursts_le`).

`FLAGA` does not see that, since it is about socket 1 only.  But for the same reason the card never
waits for `FLAGA` in vain: what is stuck is in socket 0, and socket 1 is empty as soon as the USB
side has taken all it can (`answers_of_settled`).
-/

set_option autoImplicit false

namespace Usb3FpgaCard
namespace Fx3

open Clocked Channels Fpga

variable {inp : ℕ → Pins} {drain : ℕ → ℕ} {t u k a M N : ℕ}

/-! ## What each socket is sent -/

/-- The words sent to socket `k` before cycle `t`. -/
def sentTo (inp : ℕ → Pins) (t k : ℕ) : ℕ := ((strobes inp t).filter (·.socket = k)).length

/-- The bursts of an odd number of packets that have ended before cycle `t`. -/
def oddBursts (inp : ℕ → Pins) (t : ℕ) : ℕ :=
  (bursts (SlwrLow inp) t).countP fun x ↦ x.2 / 4096 % 2 = 1

theorem sentTo_of_slwrLow (h : SlwrLow inp t) :
    sentTo inp (t + 1) k = sentTo inp t k + if (addr inp t).toNat = k then 1 else 0 := by
  have hone : ∀ x : Strobe, ([x].filter (·.socket = k)).length = if x.socket = k then 1 else 0 :=
    fun x ↦ by by_cases hk : x.socket = k <;> simp [hk]
  rw [sentTo, strobes, strobeAt_of_slwrLow h, Option.toList_some, List.filter_append,
    List.length_append, hone]
  rfl

theorem sentTo_of_not_slwrLow (h : ¬ SlwrLow inp t) : sentTo inp (t + 1) k = sentTo inp t k := by
  rw [sentTo, strobes, strobeAt_of_not_slwrLow h, Option.toList_none, List.append_nil, sentTo]

/-- There are two sockets. -/
theorem addr_eq_zero_or_one (h : SlwrLow inp t) :
    (addr inp t).toNat = 0 ∨ (addr inp t).toNat = 1 := by
  obtain ⟨a, M, hb, hau, huM⟩ := exists_writeBurst h
  have haddr := hb.addr_toNat (i := t - a) (by omega)
  rw [Nat.add_sub_cancel' hau] at haddr
  rw [haddr]
  exact Nat.mod_two_eq_zero_or_one _

/-- Every word goes to one of them. -/
theorem sentTo_add (inp : ℕ → Pins) (t : ℕ) :
    sentTo inp t 0 + sentTo inp t 1 = strobeCount inp t := by
  induction t with
  | zero => rfl
  | succ t ih =>
    by_cases hw : SlwrLow inp t
    · have hone : ((if (addr inp t).toNat = 0 then 1 else 0) +
          if (addr inp t).toNat = 1 then 1 else 0) = 1 := by
        rcases addr_eq_zero_or_one hw with h | h <;> rw [h] <;> rfl
      rw [sentTo_of_slwrLow hw, sentTo_of_slwrLow hw, strobeCount_of_slwrLow hw, ← ih]
      omega
    · rw [sentTo_of_not_slwrLow hw, sentTo_of_not_slwrLow hw, strobeCount_of_not_slwrLow hw, ih]

/-- In a burst, what is still to come for a socket makes up for what it has been sent. -/
theorem sentTo_add_need (h : WriteBurst inp a M) {i : ℕ} (hi : i ≤ M) :
    sentTo inp (a + i) k + need k (M - i) = sentTo inp a k + need k M := by
  induction i with
  | zero => rfl
  | succ i ih =>
    rw [← ih (Nat.le_of_succ_le hi), ← Nat.add_assoc, sentTo_of_slwrLow (h.holds i hi),
      h.addr_toNat hi, need_sub (k := k) hi]
    omega

/-- **A burst shares its packets out**, the odd one to socket 0. -/
theorem sentTo_writeBurst (h : WriteBurst inp a (4096 * N)) :
    sentTo inp (a + 4096 * N) 0 = sentTo inp a 0 + 4096 * ((N + 1) / 2) ∧
      sentTo inp (a + 4096 * N) 1 = sentTo inp a 1 + 4096 * (N / 2) := by
  obtain ⟨h0, h1⟩ := need_packets N
  have hsent := fun k ↦ sentTo_add_need (k := k) h (Nat.le_refl _)
  simp only [Nat.sub_self] at hsent
  exact ⟨h0 ▸ hsent 0, h1 ▸ hsent 1⟩

theorem oddBursts_writeBurst (h : WriteBurst inp a (4096 * N)) :
    oddBursts inp (a + 4096 * N + 1) = oddBursts inp a + N % 2 := by
  rw [oddBursts, Burst.bursts_succ h, List.countP_append, oddBursts, List.countP_singleton,
    Nat.mul_div_cancel_left N (by omega)]
  rcases Nat.mod_two_eq_zero_or_one N with hN | hN <;> simp [hN]

theorem oddBursts_of_not_falls (h : ¬ Falls (SlwrLow inp) t) :
    oddBursts inp (t + 1) = oddBursts inp t := by
  rw [oddBursts, bursts, if_neg h, oddBursts]

/-- **The odd bursts are what socket 0 is ahead**, whenever nothing is being strobed. -/
theorem sentTo_zero (hN : CountsInRange inp) (ht : ¬ SlwrLow inp t) :
    sentTo inp t 0 = sentTo inp t 1 + 4096 * oddBursts inp (t + 1) ∧ 4096 ∣ sentTo inp t 1 := by
  induction t using Nat.strong_induction_on with
  | _ t ih =>
    cases t with
    | zero => exact ⟨rfl, Nat.dvd_zero 4096⟩
    | succ t =>
      by_cases hw : SlwrLow inp t
      · -- a burst has just ended
        obtain ⟨a, M, hb, hat, htM⟩ := exists_writeBurst hw
        obtain ⟨N, -, -, rfl⟩ := hb.exists_packets hN
        have hend : t + 1 = a + 4096 * N := by
          by_contra hne
          exact ht (hb.holds_at (by omega) (by omega))
        obtain ⟨b, rfl⟩ : ∃ b, a = b + 1 := ⟨a - 1, by have := hb.three_le; omega⟩
        have hbefore := hb.before b rfl
        obtain ⟨hahead, hdvd⟩ := ih b (by omega) hbefore
        rw [← sentTo_of_not_slwrLow hbefore, ← sentTo_of_not_slwrLow (k := 1) hbefore] at hahead
        rw [← sentTo_of_not_slwrLow hbefore] at hdvd
        obtain ⟨h0, h1⟩ := sentTo_writeBurst hb
        rw [hend, h0, h1, oddBursts_writeBurst hb]
        omega
      · have hfalls : ¬ Falls (SlwrLow inp) (t + 1) := fun hf ↦ hw (activeFor_ne_zero_iff.mp hf.2)
        rw [sentTo_of_not_slwrLow hw, sentTo_of_not_slwrLow hw, oddBursts_of_not_falls hfalls]
        exact ih t (Nat.lt_succ_self t) hw

section sending

variable {ns : List (BitVec 32)} (hns : ∀ n ∈ ns, 1 ≤ n.toNat ∧ n.toNat ≤ 2 ^ 20)
include hns

/-- The odd bursts of a run are its odd counts. -/
theorem oddBursts_sending (hk : k ≤ ns.length) (h1 : startOf ns k + 2 ≤ u)
    (h2 : u ≤ startOf ns k + 15) :
    oddBursts (sending ns) u = (ns.take k).countP (·.toNat % 2 = 1) := by
  -- no burst ends until the next has begun
  have hconst : ∀ k u, startOf ns k + 2 ≤ u → u ≤ startOf ns k + 15 →
      oddBursts (sending ns) u = oddBursts (sending ns) (startOf ns k + 2) := by
    intro k u h1 h2
    refine eq_of_stable (f := oddBursts (sending ns)) h1 fun v h3 h4 ↦ ?_
    refine oddBursts_of_not_falls fun hf ↦ ?_
    obtain ⟨w, rfl⟩ : ∃ w, v = w + 1 := ⟨v - 1, by omega⟩
    exact not_slwrLow_sending (k := k) hns (by omega) (by omega) (activeFor_ne_zero_iff.mp hf.2)
  rw [hconst k u h1 h2]
  clear h1 h2
  induction k with
  | zero =>
    have hzero : ¬ Falls (SlwrLow (sending ns)) 0 := fun hf ↦ hf.2 rfl
    have hone : ¬ Falls (SlwrLow (sending ns)) 1 := fun hf ↦
      not_slwrLow_zero (activeFor_ne_zero_iff.mp hf.2)
    exact (oddBursts_of_not_falls hone).trans (oddBursts_of_not_falls hzero)
  | succ k ih =>
    have hb := (writeBurst_sending_iff hns).mpr ⟨k, hk, rfl, rfl⟩
    have hend : startOf ns (k + 1) + 2 = startOf ns k + 15 + 4096 * ns[k].toNat + 1 := by
      rw [startOf_succ hk, duration]
      omega
    rw [hend, oddBursts_writeBurst hb, hconst k _ (by omega) (Nat.le_refl _),
      ih (Nat.le_of_succ_le hk), List.take_succ_eq_append_getElem hk,
      List.countP_append, List.countP_singleton]
    rcases Nat.mod_two_eq_zero_or_one ns[k].toNat with h | h <;> simp [h]

end sending

/-! ## What stays in the sockets -/

/-- What the host has of each socket: as much of both, or a buffer more of socket 0. -/
theorem need_turns (n : ℕ) :
    Nat.count (fun j ↦ j / bufferWords % validSckCount = 0) (bufferWords * n) =
        4096 * ((n + 1) / 2) ∧
      Nat.count (fun j ↦ j / bufferWords % validSckCount = 1) (bufferWords * n) =
        4096 * (n / 2) :=
  need_packets n

/-- Where the words sent to the sockets are. -/
theorem sentTo_eq (inp : ℕ → Pins) (drain : ℕ → ℕ) (t : ℕ) :
    sentTo inp t 0 = 4096 * (((channel inp drain t).sent + 1) / 2) +
        ((channel inp drain t).queue 0).length ∧
      sentTo inp t 1 = 4096 * ((channel inp drain t).sent / 2) +
        ((channel inp drain t).queue 1).length := by
  obtain ⟨h0, h1⟩ := need_turns (channel inp drain t).sent
  have hqueue := channel_represents.length_queue (s := channel inp drain t)
  exact ⟨h0 ▸ (hqueue 0).symm, h1 ▸ (hqueue 1).symm⟩

theorem le_length_queue (hN : CountsInRange inp) (ht : ¬ SlwrLow inp t) :
    4096 * (oddBursts inp (t + 1) - 1) ≤ ((channel inp drain t).queue 0).length := by
  obtain ⟨hahead, b, hb⟩ := sentTo_zero hN ht
  obtain ⟨h0, h1⟩ := sentTo_eq inp drain t
  omega

theorem length_queue_of_settled (hN : CountsInRange inp) (ht : ¬ SlwrLow inp t)
    (hs : Settled inp drain t) :
    ((channel inp drain t).queue 0).length = 4096 * (oddBursts inp (t + 1) - 1) ∧
      (channel inp drain t).queue 1 = [] := by
  obtain ⟨hahead, b, hb⟩ := sentTo_zero hN ht
  obtain ⟨h0, h1⟩ := sentTo_eq inp drain t
  rw [Settled, ManyToOne.Ready, bufferWords_eq, show validSckCount = 2 from rfl] at hs
  rw [← List.length_eq_zero_iff]
  rcases Nat.mod_two_eq_zero_or_one (channel inp drain t).sent with hturn | hturn <;>
    rw [hturn] at hs <;> omega

/-- The packets in the sockets while nothing is being strobed. -/
structure Stuck (inp : ℕ → Pins) (t : ℕ) : Prop where
  /-- Of every odd burst but the first a packet is in socket 0, whatever has been forwarded, -/
  le : ∀ drain, 4096 * (oddBursts inp (t + 1) - 1) ≤ ((channel inp drain t).queue 0).length
  /-- and nothing else is in the sockets if no buffer can be forwarded. -/
  settled : ∀ drain, Settled inp drain t →
    ((channel inp drain t).queue 0).length = 4096 * (oddBursts inp (t + 1) - 1) ∧
      (channel inp drain t).queue 1 = []
  /-- The host has the rest of what the card has sent. -/
  received : ∀ drain, Settled inp drain t →
    (channel inp drain t).out.length + 4096 * (oddBursts inp (t + 1) - 1) = strobeCount inp t

/-- **Each odd burst but the first leaves a packet behind.** -/
theorem stuck (hN : CountsInRange inp) (ht : ¬ SlwrLow inp t) : Stuck inp t where
  le _ := le_length_queue hN ht
  settled _ := length_queue_of_settled hN ht
  received drain hs := by
    obtain ⟨hq0, hq1⟩ := length_queue_of_settled hN ht hs
    obtain ⟨h0, h1⟩ := sentTo_eq inp drain t
    have hout : (channel inp drain t).out.length = (channel inp drain t).sent * bufferWords :=
      channel_represents.length
    rw [← List.length_eq_zero_iff] at hq1
    rw [hout, bufferWords_eq, ← sentTo_add]
    omega

/-- One packet, two and one: the last of them stays behind. -/
theorem stuck_oneTwoOne :
    oddBursts (sending [1, 2, 1]) 16429 = 2 ∧ Stuck (sending [1, 2, 1]) 16428 := by
  have hns : ∀ n ∈ [(1 : BitVec 32), 2, 1], 1 ≤ n.toNat ∧ n.toNat ≤ 2 ^ 20 := by simp
  have hstart : startOf [1, 2, 1] 3 = 16426 := rfl
  refine ⟨?_, stuck (countsInRange_sending hns) (not_slwrLow_sending (k := 3) hns ?_ ?_)⟩
  · rw [oddBursts_sending (k := 3) hns (by decide) (by rw [hstart]; omega) (by rw [hstart]; omega)]
    rfl
  · omega
  · omega

/-! ## What that does to the board -/

/-- **No card has six odd bursts without a loss**, however fast its buffers are released. -/
theorem oddBursts_le {inp : ℕ → Pins × ℕ} (hN : CountsInRange (boardPins inp))
    (h : NoOverrun (boardEnv inp)) (t : ℕ) : oddBursts (boardPins inp) t ≤ 5 := by
  induction t with
  | zero => exact Nat.zero_le 5
  | succ t ih =>
    by_cases hw : SlwrLow (boardPins inp) t
    · rwa [oddBursts_of_not_falls fun hf ↦ hf.1 hw]
    · have hle : 4096 * (oddBursts (boardPins inp) (t + 1) - 1) ≤
          ((channel (boardPins inp) (boardDrain inp) t).queue 0).length := le_length_queue hN hw
      have hroom := (socket (boardEnv inp) t 0).le
      rw [(system_board inp t).2 0, board_eq_channel h t] at hroom
      rw [socketWords, bufferWords_eq, dmaBufCountPToU] at hroom
      omega

/-- While the card waits, nothing is being strobed. -/
theorem not_slwrLow_of_smWaitFlaga (h : sm inp t = .smWaitFlaga) : ¬ SlwrLow inp t := by
  intro hlow
  obtain ⟨u, rfl, hs⟩ := slwrLow_iff.mp hlow
  have hedge := sm_edge inp u
  rw [hs, h] at hedge
  cases hedge

/-- When the USB side has taken all it can, a buffer of socket 1 is free, also a cycle later. -/
theorem held_of_settled {inp : ℕ → Pins × ℕ} (hN : CountsInRange (boardPins inp))
    (h : NoOverrun (boardEnv inp)) (ht : ¬ SlwrLow (boardPins inp) t)
    (hs : Settled (boardPins inp) (boardDrain inp) t) :
    0 < (board.run inp t).free 1 ∧ 0 < (board.run inp (t + 1)).free 1 := by
  have hempty : (socket (boardEnv inp) t 1).held = 0 := by
    rw [(system_board inp t).2, board_eq_channel h t, (length_queue_of_settled hN ht hs).2]
    rfl
  have hnext := held_succ_le (boardEnv inp) t 1
  rw [pins_board, if_neg fun hw ↦ ht hw.1, hempty, Nat.add_zero] at hnext
  rw [(system_board inp _).2] at hempty hnext
  rw [Board.free, Board.free, hempty, Nat.le_zero.mp hnext]
  exact ⟨by decide, by decide⟩

/-- **The card does not wait for `FLAGA` in vain**: when the USB side has taken all it can, the
answer begins, and with it the words of the last command. -/
theorem answers_of_settled {inp : ℕ → Pins × ℕ} (hN : CountsInRange (boardPins inp))
    (h : NoOverrun (boardEnv inp)) (hw : sm (boardPins inp) t = .smWaitFlaga)
    (hs : Settled (boardPins inp) (boardDrain inp) t)
    (hb : ∀ u, t ≤ u → u ≤ t + 1 → (inp u).1.flagb = true) :
    ∃ l b, WritePhase (boardPins inp) l b ∧ t ≤ l ∧ b ≤ t + 3 := by
  obtain ⟨hfree, hfree'⟩ := held_of_settled hN h (not_slwrLow_of_smWaitFlaga hw) hs
  have hflag : ∀ u, t ≤ u → u ≤ t + 1 → 0 < (board.run inp u).free 1 →
      (boardPins inp u).flaga = true ∧ (boardPins inp u).flagb = true := by
    intro u h1 h2 hu
    refine ⟨decide_eq_true hu, ?_⟩
    show (decide (0 < (board.run inp u).free 1) && (inp u).1.flagb) = true
    rw [decide_eq_true hu, hb u h1 h2]
    rfl
  by_cases hlate : sm (boardPins inp) (t + 1) = .smWaitFlaga
  · have hlaunch : Launch (boardPins inp) (t + 1) := ⟨hlate, by
      rw [sm_next_smWaitFlaga hlate, flagaD_succ,
        if_pos (hflag t (Nat.le_refl t) (Nat.le_succ t) hfree).1]⟩
    exact ⟨t + 1, t + 3,
      hlaunch.writePhase (hflag _ (Nat.le_succ t) (Nat.le_refl _) hfree').2, Nat.le_succ t,
      Nat.le_refl _⟩
  · have hlaunch : Launch (boardPins inp) t := ⟨hw, by
      have hnext := sm_next_smWaitFlaga hw
      split at hnext
      · exact hnext
      · exact absurd hnext hlate⟩
    exact ⟨t, t + 2, hlaunch.writePhase (hflag t (Nat.le_refl t) (Nat.le_succ t) hfree).2,
      Nat.le_refl t, Nat.le_succ _⟩

/-! ### A run with stuck packets -/

/-- What is in a socket has been sent to it. -/
theorem held_le_sentTo (env : ℕ → Env) : (socket env t k).held ≤ sentTo (pins env) t k := by
  induction t with
  | zero => exact Nat.zero_le _
  | succ t ih =>
    refine Nat.le_trans (held_succ_le env t k) ?_
    by_cases hw : SlwrLow (pins env) t
    · simpa only [hw, true_and, sentTo_of_slwrLow hw] using Nat.add_le_add_right ih _
    · rwa [if_neg fun h ↦ hw h.1, sentTo_of_not_slwrLow hw]

/-- If three buffers are enough for what socket 1 is sent, `FLAGA` stays high. -/
theorem boardPins_eq {inp : ℕ → Pins × ℕ} {p : ℕ → Pins} (hp : ∀ t, (inp t).1 = p t)
    (hflaga : ∀ t, (p t).flaga = true) (hsent : ∀ t, sentTo p t 1 ≤ 3 * bufferWords) :
    boardPins inp = p := by
  funext t
  induction t using Nat.strong_induction_on with
  | _ t ih =>
    have hqueue : ((board.run inp t).channel.queue 1).length ≤ 3 * bufferWords := by
      rw [← (system_board inp t).2]
      refine Nat.le_trans (held_le_sentTo _) ?_
      rw [pins_board, sentTo, strobes_congr ih]
      exact hsent t
    have hfree : 0 < (board.run inp t).free 1 := by
      rw [bufferWords_eq] at hqueue
      refine Nat.div_pos ?_ ?_ <;> rw [bufferWords_eq]
      · rw [socketWords, bufferWords_eq, dmaBufCountPToU]
        omega
      · omega
    rw [boardPins, Board.pins, decide_eq_true hfree, Bool.true_and, hp, ← hflaga t]

theorem channel_succ_of_not_slwrLow (h : ¬ SlwrLow inp t) (hd : drain t = 1) :
    channel inp drain (t + 1) = (channel inp drain t).forward validSckCount bufferWords := by
  rw [channel_succ, hd, strobeAt_of_not_slwrLow h]
  rfl

/-- Three commands for one packet each, and an attempt to forward a buffer after each cycle. -/
def threeOdd (t : ℕ) : Pins × ℕ := (sending [1, 1, 1] t, 1)

theorem threeOdd_counts : ∀ n ∈ [(1 : BitVec 32), 1, 1], 1 ≤ n.toNat ∧ n.toNat ≤ 2 ^ 20 := by simp

theorem strobeCount_threeOdd : strobeCount (sending [1, 1, 1]) t ≤ 3 * bufferWords :=
  strobeCount_sending_le threeOdd_counts t

theorem boardPins_threeOdd : boardPins threeOdd = sending [1, 1, 1] := by
  refine boardPins_eq (fun _ ↦ rfl) (fun t ↦ (flags_sending _ t).1) fun t ↦ ?_
  have := sentTo_add (sending [1, 1, 1]) t
  have := strobeCount_threeOdd (t := t)
  omega

theorem countsInRange_threeOdd : CountsInRange (boardPins threeOdd) :=
  boardPins_threeOdd ▸ countsInRange_sending threeOdd_counts

/-- They fit. -/
theorem noOverrun_threeOdd : NoOverrun (boardEnv threeOdd) := by
  intro t hw
  have hone := strobeCount_of_slwrLow hw
  have hadd := sentTo_add (pins (boardEnv threeOdd)) t
  have hle := held_le_sentTo (boardEnv threeOdd) (t := t)
    (k := (addr (pins (boardEnv threeOdd)) t).toNat)
  have hcount := strobeCount_threeOdd (t := t)
  rw [← boardPins_threeOdd, ← pins_board, bufferWords_eq] at hcount
  rw [Socket.HasRoom, socketWords, dmaBufCountPToU, bufferWords_eq]
  rcases addr_eq_zero_or_one hw with h | h <;> rw [h] at hle ⊢ <;> omega

theorem oddBursts_threeOdd : NoOverrun (boardEnv threeOdd) ∧
    ∀ t, oddBursts (boardPins threeOdd) t ≤ 5 :=
  ⟨noOverrun_threeOdd, oddBursts_le countsInRange_threeOdd noOverrun_threeOdd⟩

theorem not_slwrLow_threeOdd (h1 : 8221 ≤ t) (h2 : t ≤ 8234) :
    ¬ SlwrLow (sending [1, 1, 1]) t := by
  have hstart : startOf [1, 1, 1] 2 = 8220 := rfl
  exact not_slwrLow_sending (k := 2) threeOdd_counts (by omega) (by omega)

theorem oddBursts_sending_threeOdd (h1 : 8222 ≤ t) (h2 : t ≤ 8235) :
    oddBursts (sending [1, 1, 1]) t = 2 := by
  have hstart : startOf [1, 1, 1] 2 = 8220 := rfl
  exact oddBursts_sending (k := 2) threeOdd_counts (by decide) (by omega) (by omega)

/-- Socket 1 has been sent nothing when the third answer begins. -/
theorem sentTo_threeOdd (h1 : 8221 ≤ t) (h2 : t ≤ 8234) : sentTo (sending [1, 1, 1]) t 1 = 0 := by
  have hahead := (sentTo_zero (countsInRange_sending threeOdd_counts)
    (not_slwrLow_threeOdd h1 h2)).1
  have hcount := strobeCount_sending (k := 2) threeOdd_counts (by decide)
  have hstart : startOf [1, 1, 1] 2 = 8220 := rfl
  have hsum : 4096 * (([(1 : BitVec 32), 1, 1].take 2).map BitVec.toNat).sum = 8192 := rfl
  rw [hstart, hsum, strobeCount_eq_of_not_slwrLow (t := t) (by omega) fun v h3 h4 ↦
    not_slwrLow_threeOdd (by omega) (by omega), ← sentTo_add] at hcount
  rw [oddBursts_sending_threeOdd (by omega) (by omega)] at hahead
  omega

/-- The USB side has taken all it can while the third command waits for `FLAGA`. -/
theorem settled_threeOdd : Settled (boardPins threeOdd) (boardDrain threeOdd) 8232 := by
  rw [boardPins_threeOdd]
  have hsent := (sentTo_eq (sending [1, 1, 1]) (boardDrain threeOdd) 8232).2
  rw [sentTo_threeOdd (by omega) (by omega)] at hsent
  have hstep : channel (sending [1, 1, 1]) (boardDrain threeOdd) 8232 =
      (channel (sending [1, 1, 1]) (boardDrain threeOdd) 8231).forward validSckCount
        bufferWords :=
    channel_succ_of_not_slwrLow (not_slwrLow_threeOdd (by omega) (by omega)) rfl
  intro hready
  by_cases hbefore : (channel (sending [1, 1, 1]) (boardDrain threeOdd) 8231).Ready validSckCount
      bufferWords
  · -- a packet has just been forwarded, and it is the turn of socket 1
    have hone := ManyToOne.forward_sent hbefore
    rw [← hstep] at hone
    have hturn : (channel (sending [1, 1, 1]) (boardDrain threeOdd) 8232).sent = 1 := by omega
    rw [ManyToOne.Ready, hturn, show 1 % validSckCount = 1 from rfl, bufferWords_eq] at hready
    omega
  · rw [hstep, ManyToOne.forward_of_not_ready hbefore] at hready
    exact hbefore hready

/-- The second packet is in socket 0, and the third command is answered. -/
theorem answers_threeOdd :
    ((board.run threeOdd 8232).channel.queue 0).length = 4096 ∧
      ∃ l b, WritePhase (boardPins threeOdd) l b ∧ 8232 ≤ l ∧ b ≤ 8235 := by
  have hwait : sm (boardPins threeOdd) 8232 = .smWaitFlaga := by
    rw [boardPins_threeOdd]
    exact (answered_sending (k := 2) threeOdd_counts (by decide)).write.launch.waitFlaga
  refine ⟨?_, answers_of_settled countsInRange_threeOdd noOverrun_threeOdd hwait settled_threeOdd
    fun u _ _ ↦ (flags_sending _ u).2⟩
  rw [board_eq_channel noOverrun_threeOdd, (length_queue_of_settled countsInRange_threeOdd
    (not_slwrLow_of_smWaitFlaga hwait) settled_threeOdd).1, boardPins_threeOdd,
    oddBursts_sending_threeOdd (by omega) (by omega)]

end Fx3
end Usb3FpgaCard
