import Usb3FpgaCard.Channels.ManyToOne
import Usb3FpgaCard.Fpga.Capture
import Usb3FpgaCard.Fpga.Sequence

/-!
# The P-to-U channel: `fx3/cyfxslfifosync.c`

The firmware makes one multichannel of type `AUTO_MANY_TO_ONE` of sockets 0 and 1, and the DMA
hardware forwards full buffers of the two to the IN endpoint in turn, beginning with socket 0.
`channel inp drain t` is that channel while the card writes to it, with `drain t` attempts to
forward a buffer after cycle `t`; `drain` is arbitrary, so this is every interleaving of the card
with the USB side.

The host gets what the card wrote in the order it was written if the first packet count is odd and
all others are even, and in no other case (`deliversInOrder_iff`): the channel counts its turns from
the first buffer on, while the card makes every burst *end* at socket 0.
-/

set_option autoImplicit false

namespace Usb3FpgaCard
namespace Fx3

open Clocked Channels Fpga

/-! ## The channel as the firmware creates it -/

/-- `DMA_BUF_SIZE`. -/
def dmaBufSize : ℕ := 16

/-- `dmaMultiCfg.size`, in bytes; `size` is the packet size of the endpoint. -/
def dmaMultiCfgSize (size : ℕ) : ℕ := dmaBufSize * size

/-- `dmaMultiCfg.validSckCount`. -/
def validSckCount : ℕ := 2

/-- The packet size at SuperSpeed. -/
def superSpeed : ℕ := 1024

/-- The 32-bit words in a buffer at SuperSpeed. -/
def bufferWords : ℕ := dmaMultiCfgSize superSpeed / 4

theorem bufferWords_eq : bufferWords = 4096 := rfl

/-- The channel: in each cycle at most one word is written, and then some full buffers are
forwarded. -/
def pToU : Machine (ManyToOne Strobe) (Option Strobe × ℕ) where
  reset := ManyToOne.start
  edge s i := (ManyToOne.forward validSckCount bufferWords)^[i.2] (s.accept Strobe.socket i.1)

section channel

variable (inp : ℕ → Pins) (drain : ℕ → ℕ) (t : ℕ)

/-- The channel in cycle `t`. -/
def channel : ManyToOne Strobe := pToU.run (fun u ↦ (strobeAt inp u, drain u)) t

/-- No buffer can be forwarded. -/
def Settled : Prop := ¬ (channel inp drain t).Ready validSckCount bufferWords

/-- The bytes of a word as GPIF packs them, the low byte first. -/
def bytesOf (w : BitVec 32) : List (BitVec 8) := [byteOf w 0, byteOf w 1, byteOf w 2, byteOf w 3]

/-- A sequence of words as bytes. -/
def byteStream (l : List Strobe) : List (BitVec 8) := l.flatMap fun x ↦ bytesOf x.word

/-- The byte stream that has reached the host. -/
def hostStream : List (BitVec 8) := byteStream (channel inp drain t).out

end channel

variable {inp : ℕ → Pins} {drain : ℕ → ℕ} {t u a M N : ℕ}

theorem channel_succ :
    channel inp drain (t + 1) = (ManyToOne.forward validSckCount bufferWords)^[drain t]
      ((channel inp drain t).accept Strobe.socket (strobeAt inp t)) := rfl

/-- **The channel keeps its invariant**, whatever is forwarded when. -/
theorem channel_represents :
    (channel inp drain t).Represents validSckCount bufferWords Strobe.socket (strobes inp t) := by
  induction t with
  | zero => exact ManyToOne.represents_start
  | succ t ih => exact (ih.accept (strobeAt inp t)).forward_iterate (drain t)

/-- Some drain settles the channel in cycle `t + 1`. -/
theorem exists_settled (inp : ℕ → Pins) (t : ℕ) : ∃ drain, Settled inp drain (t + 1) := by
  obtain ⟨k, hk⟩ := ManyToOne.exists_settled (n := validSckCount) (B := bufferWords)
    (by decide) (by rw [bufferWords_eq]; omega)
    ((channel inp (fun _ ↦ 0) t).accept Strobe.socket (strobeAt inp t))
  refine ⟨fun u ↦ if u = t then k else 0, ?_⟩
  have hbefore : channel inp (fun u ↦ if u = t then k else 0) t = channel inp (fun _ ↦ 0) t :=
    Machine.run_congr fun u hu ↦ Prod.ext rfl (if_neg (Nat.ne_of_lt hu))
  rwa [Settled, channel_succ, hbefore, if_pos rfl]

/-! ## Which counts make the card alternate -/

/-- The packet counts for which the sockets fit: the first is odd, all others are even. -/
structure OddThenEven (inp : ℕ → Pins) : Prop where
  /-- The first write burst has an odd number of packets. -/
  first : ∀ a N, WriteBurst inp a (4096 * N) → (∀ a' M', WriteBurst inp a' M' → a ≤ a') →
    N % 2 = 1
  /-- Every other has an even number. -/
  later : ∀ a' M' a N, WriteBurst inp a' M' → WriteBurst inp a (4096 * N) → a' < a → N % 2 = 0

/-- The log alternates if every strobe goes to the socket the number of blocks before it asks
for. -/
theorem alternates_strobes_iff :
    Alternates validSckCount bufferWords Strobe.socket (strobes inp t) ↔
      ∀ u, u < t → SlwrLow inp u → (addr inp u).toNat = strobeCount inp u / 4096 % 2 := by
  induction t with
  | zero => exact ⟨fun _ u hu ↦ absurd hu (Nat.not_lt_zero u), fun _ ↦ alternates_nil⟩
  | succ t ih =>
    have hsplit : (∀ u, u < t + 1 → SlwrLow inp u →
        (addr inp u).toNat = strobeCount inp u / 4096 % 2) ↔
        (∀ u, u < t → SlwrLow inp u → (addr inp u).toNat = strobeCount inp u / 4096 % 2) ∧
          (SlwrLow inp t → (addr inp t).toNat = strobeCount inp t / 4096 % 2) := by
      refine ⟨fun h ↦ ⟨fun u hu ↦ h u (Nat.lt_succ_of_lt hu), h t (Nat.lt_succ_self t)⟩, ?_⟩
      rintro ⟨h, ht⟩ u hu
      rcases Nat.lt_succ_iff_lt_or_eq.mp hu with hlt | rfl
      · exact h u hlt
      · exact ht
    rw [hsplit, ← ih, strobes]
    by_cases hw : SlwrLow inp t
    · rw [strobeAt_of_slwrLow hw, Option.toList_some, alternates_concat]
      exact and_congr_right fun _ ↦ ⟨fun h _ ↦ h, fun h ↦ h hw⟩
    · rw [strobeAt_of_not_slwrLow hw, Option.toList_none, List.append_nil]
      exact ⟨fun h ↦ ⟨h, fun h' ↦ absurd h' hw⟩, And.left⟩

/-- Between bursts the log is whole buffers. -/
theorem dvd_strobeCount (hN : CountsInRange inp) (ht : Between inp t) :
    4096 ∣ strobeCount inp t := by
  induction t using Nat.strong_induction_on with
  | _ t ih =>
    rcases strobeCount_of_between ht with ⟨h0, -⟩ | ⟨a, M, hb, hat, hc⟩
    · rw [h0]
      exact Nat.dvd_zero _
    · obtain ⟨N, -, -, rfl⟩ := hb.exists_packets hN
      rw [hc]
      exact Nat.dvd_add (ih a hat hb.between) (Nat.dvd_mul_right 4096 N)

/-- One burst fits if the number of packets sent up to its end is odd. -/
theorem fits_iff (h : WriteBurst inp a (4096 * N)) (hd : 4096 ∣ strobeCount inp a) :
    (∀ i, i < 4096 * N → (addr inp (a + i)).toNat = strobeCount inp (a + i) / 4096 % 2) ↔
      (strobeCount inp a / 4096 + N) % 2 = 1 := by
  obtain ⟨P, hP⟩ := hd
  have hpos := h.pos
  have hword : ∀ i, i < 4096 * N → ((addr inp (a + i)).toNat = strobeCount inp (a + i) / 4096 % 2 ↔
      (N - 1 - i / 4096) % 2 = (P + i / 4096) % 2) := fun i hi ↦ by
    rw [h.addr_eq hi, h.strobeCount_add (Nat.le_of_lt hi), hP, Nat.mul_add_div (by omega)]
  rw [hP, Nat.mul_div_cancel_left P (by omega)]
  constructor
  · intro hall
    have := (hword 0 hpos).mp (hall 0 hpos)
    omega
  · intro hodd i hi
    refine (hword i hi).mpr ?_
    have : i / 4096 < N := Nat.div_lt_of_lt_mul hi
    omega

/-- **The parities.**  The number of packets sent up to the end of each burst is odd if and only if
the first count is odd and all others are even. -/
theorem oddThenEven_iff (hN : CountsInRange inp) :
    OddThenEven inp ↔
      ∀ a N, WriteBurst inp a (4096 * N) → (strobeCount inp a / 4096 + N) % 2 = 1 := by
  have hsum : ∀ {a M a' M'}, WriteBurst inp a M → WriteBurst inp a' M' →
      strobeCount inp a = strobeCount inp a' + M' →
      ∃ N', M' = 4096 * N' ∧ strobeCount inp a / 4096 = strobeCount inp a' / 4096 + N' := by
    intro a M a' M' h h' heq
    obtain ⟨N', -, -, rfl⟩ := h'.exists_packets hN
    exact ⟨N', rfl, by rw [heq, Nat.add_mul_div_left _ _ (by omega)]⟩
  constructor
  · intro hpar a
    induction a using Nat.strong_induction_on with
    | _ a ih =>
      intro N hb
      rcases strobeCount_of_between hb.between with ⟨h0, hfirst⟩ | ⟨a', M', hb', hlt, hc⟩
      · have := hpar.first a N hb hfirst
        rw [h0]
        omega
      · obtain ⟨N', rfl, hsum⟩ := hsum hb hb' hc
        have hodd := ih a' hlt N' hb'
        have heven := hpar.later a' _ a N hb' hb hlt
        omega
  · intro hodd
    constructor
    · intro a N hb hfirst
      have := hodd a N hb
      rcases strobeCount_of_between hb.between with ⟨h0, -⟩ | ⟨a', M', hb', hlt, -⟩
      · rw [h0] at this
        omega
      · exact absurd (hfirst a' M' hb') (Nat.not_le_of_lt hlt)
    · intro a' M' a N hb' hb hlt
      have := hodd a N hb
      rcases strobeCount_of_between hb.between with ⟨-, hfirst⟩ | ⟨a'', M'', hb'', hlt', hc⟩
      · exact absurd (hfirst a' M' hb') (Nat.not_le_of_lt hlt)
      · obtain ⟨N'', rfl, hsum⟩ := hsum hb hb'' hc
        have := hodd a'' N'' hb''
        omega

/-- If the counts fit, the card alternates. -/
theorem alternates_of_oddThenEven (hN : CountsInRange inp) (hpar : OddThenEven inp) :
    Alternates validSckCount bufferWords Strobe.socket (strobes inp t) := by
  refine alternates_strobes_iff.mpr fun u _ hu ↦ ?_
  obtain ⟨a, M, hb, hau, huM⟩ := exists_writeBurst hu
  obtain ⟨N, -, -, rfl⟩ := hb.exists_packets hN
  obtain ⟨i, rfl⟩ : ∃ i, u = a + i := ⟨u - a, by omega⟩
  exact (fits_iff hb (dvd_strobeCount hN hb.between)).mpr
    ((oddThenEven_iff hN).mp hpar a N hb) i (by omega)

/-! ## Delivery -/

/-- The host gets what the card writes, in that order, however the two are interleaved. -/
structure DeliversInOrder (inp : ℕ → Pins) : Prop where
  /-- Nothing overtakes anything. -/
  ordered : ∀ drain t, (channel inp drain t).out.IsPrefix (strobes inp t)
  /-- Nothing stays behind when the card is idle and the channel has settled. -/
  complete : ∀ drain t, sm inp t = .smIdle → Settled inp drain t →
    (channel inp drain t).out = strobes inp t
  /-- So the host has the bytes of the words written. -/
  bytes : ∀ drain t, sm inp t = .smIdle → Settled inp drain t →
    hostStream inp drain t = byteStream (strobes inp t)

theorem between_of_smIdle (h : sm inp t = .smIdle) : Between inp t := by
  refine .inl fun hw ↦ ?_
  obtain ⟨u, rfl, hs⟩ := slwrLow_iff.mp hw
  have hedge := sm_edge inp u
  rw [hs, h] at hedge
  cases hedge

/-- **When the host gets the words in order**: if and only if the first packet count is odd and all
others are even. -/
theorem deliversInOrder_iff (hN : CountsInRange inp) : DeliversInOrder inp ↔ OddThenEven inp := by
  constructor
  · intro hd
    refine (oddThenEven_iff hN).mpr fun a N hb ↦ ?_
    obtain ⟨l, b, hp, rfl, hM⟩ := hb.exists_launch
    -- the cycle after the burst, in which the state machine is idle
    have hidle := hp.sm_idle
    rw [← hM] at hidle
    obtain ⟨drain, hs⟩ := exists_settled inp (b + 4096 * N)
    have heq := hd.complete drain _ hidle hs
    have halt : Alternates validSckCount bufferWords Strobe.socket
        (strobes inp (b + 4096 * N + 1)) := heq ▸ channel_represents.turns
    refine (fits_iff hb (dvd_strobeCount hN hb.between)).mp fun i hi ↦ ?_
    exact alternates_strobes_iff.mp halt (b + 1 + i) (by omega) (hb.holds i hi)
  · intro hpar
    have halt : ∀ t, Alternates validSckCount bufferWords Strobe.socket (strobes inp t) :=
      fun t ↦ alternates_of_oddThenEven hN hpar
    have hall : ∀ drain t, sm inp t = .smIdle → Settled inp drain t →
        (channel inp drain t).out = strobes inp t := fun drain t hidle hs ↦
      (channel_represents.out_eq_iff (dvd_strobeCount hN (between_of_smIdle hidle)) hs).mpr (halt t)
    exact ⟨fun drain t ↦ channel_represents.isPrefix (halt t), hall,
      fun drain t hidle hs ↦ congrArg byteStream (hall drain t hidle hs)⟩

/-! ### A run in order -/

/-- One packet goes to socket 0, and of two more the first goes to socket 1. -/
theorem deliversInOrder_oneTwo : DeliversInOrder (sending [1, 2]) := by
  have hns : ∀ n ∈ [(1 : BitVec 32), 2], 1 ≤ n.toNat ∧ n.toNat ≤ 2 ^ 20 := by simp
  have hfirst : WriteBurst (sending [1, 2]) 15 4096 :=
    (writeBurst_sending_iff hns).mpr ⟨0, by decide, rfl, rfl⟩
  -- the bursts of the run begin in cycles 15 and 4125
  have hburst : ∀ {a M}, WriteBurst (sending [1, 2]) a M →
      a = 15 ∧ M = 4096 ∨ a = 4125 ∧ M = 4096 * 2 := by
    intro a M hb
    obtain ⟨k, hk, rfl, rfl⟩ := (writeBurst_sending_iff hns).mp hb
    have hk' : k < 2 := hk
    obtain rfl | rfl : k = 0 ∨ k = 1 := by omega
    · exact .inl ⟨rfl, rfl⟩
    · exact .inr ⟨rfl, rfl⟩
  refine (deliversInOrder_iff (countsInRange_sending hns)).mpr ⟨fun a N hb hle ↦ ?_, ?_⟩
  · have := hle 15 _ hfirst
    rcases hburst hb with ⟨rfl, hN⟩ | ⟨rfl, hN⟩ <;> omega
  · intro a' M' a N hb' hb hlt
    rcases hburst hb' with ⟨rfl, -⟩ | ⟨rfl, -⟩ <;> rcases hburst hb with ⟨rfl, hN⟩ | ⟨rfl, hN⟩ <;>
      omega

/-! ### A run out of order -/

/-- A command for eight packets of samples of the push button `PB[0]`, which is released in cycle
2000. -/
def eightPackets (t : ℕ) : Pins where
  flaga := true
  flagb := true
  flagc := true
  flagd := decide (t < 5)
  dq := if t = 6 then Regs.header else if t = 7 then 8 else 0x09090909
  pb := fun _ ↦ if t < 2000 then 1 else 0
  allCtrReset := false

theorem eightPackets_readBurst : ReadBurst eightPackets 4 5 :=
  readBurst_of_flagd (n := 3) sm_one rfl (by omega) (by decide) rfl

theorem eightPackets_writePhase : WritePhase eightPackets 12 14 :=
  Launch.writePhase ⟨by decide, by decide⟩ rfl

theorem eightPackets_wordCount : wordCount (packetCount eightPackets 12) = 4096 * 8 := by
  rw [show packetCount eightPackets 12 = 8 by decide, wordCount_eq (by decide) (by decide)]
  rfl

theorem eightPackets_writeBurst : WriteBurst eightPackets 15 (4096 * 8) :=
  eightPackets_wordCount ▸ eightPackets_writePhase.writeBurst

theorem eightPackets_chSrc (h1 : 12 ≤ t) (h2 : t ≤ 14 + 4096 * 8) :
    (config eightPackets t).chSrc 0 = 9 := by
  rw [eightPackets_readBurst.config_of_answering (by decide) (by omega) (by omega) h1 fun v hv _ ↦
    eightPackets_writePhase.answering hv (by rw [eightPackets_wordCount]; omega)]
  decide

/-- The top bit of the first sample in a word is the button two edges before. -/
theorem eightPackets_word {i : ℕ} (hi : i < 4096 * 8) :
    (byteOf (dq eightPackets (15 + i)) 0).getLsbD 7 = decide (12 + i < 2000) := by
  have h := eightPackets_writeBurst.burstByte_eq (n := 4 * i) (by omega)
  rw [burstByte, Nat.mul_div_cancel_left i (by omega), Nat.mul_mod_right,
    show 4 * 15 - 9 + 4 * i = 4 * (12 + i) + 1 + 2 by omega] at h
  rw [h, chDataAt]
  refine (getLsbD_chData _ _ 0).trans ?_
  rw [FastRegs.channel, show (4 * (12 + i) + 1 + 2) / 4 = 12 + i by omega,
    eightPackets_chSrc (by omega) (by omega), show (9 : BitVec 8).toNat = 9 + 0 from rfl,
    getLsbD_dataSrc_pb, pb2d_succ, show (4 * (12 + i) + 1) / 4 = 12 + i by omega, eightPackets]
  by_cases hlt : 12 + i < 2000 <;> simp [hlt]

/-- Nothing is strobed before the answer, and of the answer nothing goes to socket 0 before its
second block. -/
theorem eightPackets_cycle_of_socket {x : Strobe} (hx : x ∈ strobes eightPackets (15 + 4096 * 8))
    (hs : x.socket = 0) : ∃ i, x.cycle = 15 + i ∧ 4096 ≤ i ∧ i < 4096 * 8 := by
  obtain ⟨hlt, hw, haddr, -⟩ := mem_strobes hx
  have hge : 15 ≤ x.cycle := by
    by_contra hlt'
    have hnone : ∀ u, u < 15 → ¬ SlwrLow eightPackets u := by decide
    exact hnone _ (by omega) hw
  obtain ⟨i, hi⟩ : ∃ i, x.cycle = 15 + i := ⟨x.cycle - 15, by omega⟩
  refine ⟨i, hi, ?_, by omega⟩
  have := eightPackets_writeBurst.addr_eq (i := i) (by omega)
  rw [Strobe.socket, haddr, hi, this] at hs
  omega

/-- **The host gets the second packet first.** -/
theorem eightPackets_out_of_order :
    ∃ drain t, sm eightPackets t = .smIdle ∧ Settled eightPackets drain t ∧
      hostStream eightPackets drain t ≠ byteStream (strobes eightPackets t) := by
  obtain ⟨drain, hs⟩ := exists_settled eightPackets (14 + 4096 * 8)
  have hidle := eightPackets_writePhase.sm_idle
  rw [eightPackets_wordCount] at hidle
  refine ⟨drain, _, hidle, hs, fun heq ↦ ?_⟩
  -- the first word written
  obtain ⟨rest, hrest⟩ : (strobes eightPackets 16).IsPrefix
      (strobes eightPackets (14 + 4096 * 8 + 1)) := strobes_isPrefix (by omega)
  have hfirst : strobes eightPackets 16 =
      [{ cycle := 15, addr := addr eightPackets 15, word := dq eightPackets 15 }] := by
    rw [strobes, strobeAt_of_slwrLow (by decide), show strobes eightPackets 15 = [] by decide]
    rfl
  rw [hostStream, ← hrest, hfirst, List.singleton_append] at heq
  -- the first word at the host
  cases hout : (channel eightPackets drain (14 + 4096 * 8 + 1)).out with
  | nil =>
    rw [hout] at heq
    exact absurd heq (by simp [byteStream, bytesOf])
  | cons x l =>
    have hmem : x ∈ (channel eightPackets drain (14 + 4096 * 8 + 1)).out :=
      hout ▸ List.mem_cons_self
    have hrep : (channel eightPackets drain (14 + 4096 * 8 + 1)).Represents validSckCount
        bufferWords Strobe.socket (strobes eightPackets (14 + 4096 * 8 + 1)) := channel_represents
    have hsocket : x.socket = 0 := by
      have h0 := hrep.turns 0 (by simp [hout])
      simpa [hout] using h0
    have hlog := hrep.mem_of_mem_out hmem
    obtain ⟨i, hcycle, hge, hlt⟩ := eightPackets_cycle_of_socket hlog hsocket
    have hx := eightPackets_word hlt
    have hy := eightPackets_word (i := 0) (by omega)
    rw [← hcycle, ← (mem_strobes hlog).2.2.2] at hx
    have hbyte : byteOf x.word 0 = byteOf (dq eightPackets 15) 0 := by
      rw [hout] at heq
      simpa [byteStream, bytesOf] using congrArg List.head? heq
    rw [hbyte, show (15 : ℕ) = 15 + 0 from rfl, hy] at hx
    simp at hx
    omega

end Fx3
end Usb3FpgaCard
