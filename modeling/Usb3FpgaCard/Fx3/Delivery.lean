import Usb3FpgaCard.Channels.Exchange
import Usb3FpgaCard.Fx3.Channel

/-!
# What the host gets for even packet counts

Every burst the card makes ends at socket 0.  If all packet counts are even, then every burst begins
at socket 1, while the DMA channel always waits for socket 0 first.  The channel then hands over the
second packet of each pair before the first, whatever else happens (`deliversExchanged`).  No pair
reaches over the end of a burst, so the host has each burst where it belongs in the stream, and
inside of it packet `2 * i + 1` before packet `2 * i` (`hostStream_burst`).
-/

set_option autoImplicit false

namespace Usb3FpgaCard
namespace Fx3

open Clocked Channels Fpga

variable {inp : ℕ → Pins} {drain : ℕ → ℕ} {t u a M n i j : ℕ}

/-! ## Even packet counts -/

/-- Every packet count that is launched is even, and one the counter can take. -/
structure EvenCounts (inp : ℕ → Pins) : Prop where
  /-- Between 1 and 2^20. -/
  range : CountsInRange inp
  /-- Even. -/
  even : ∀ l, Launch inp l → (packetCount inp l).toNat % 2 = 0

/-- A write burst is a number of pairs of packets. -/
theorem EvenCounts.exists_pairs (h : EvenCounts inp) (hb : WriteBurst inp a M) :
    ∃ N, M = 8192 * N := by
  obtain ⟨l, b, hp, -, rfl⟩ := hb.exists_launch
  obtain ⟨h1, h2⟩ := h.range l hp.launch
  have heven := h.even l hp.launch
  refine ⟨(packetCount inp l).toNat / 2, ?_⟩
  rw [wordCount_eq h1 h2]
  omega

/-- Between bursts the log is pairs of packets. -/
theorem EvenCounts.exists_strobeCount (h : EvenCounts inp) (ht : Between inp t) :
    ∃ P, strobeCount inp t = 8192 * P := by
  induction t using Nat.strong_induction_on with
  | _ t ih =>
    rcases strobeCount_of_between ht with ⟨h0, -⟩ | ⟨a, M, hb, hat, hc⟩
    · exact ⟨0, h0⟩
    · obtain ⟨N, rfl⟩ := h.exists_pairs hb
      obtain ⟨P, hP⟩ := ih a hat hb.between
      exact ⟨P + N, by omega⟩

/-- **The card begins with socket 1** and then alternates, from one burst to the next. -/
theorem EvenCounts.alternatesLate (h : EvenCounts inp) (t : ℕ) :
    AlternatesLate bufferWords Strobe.socket (strobes inp t) := by
  intro j hj
  obtain ⟨u, hut, hlow, rfl⟩ := exists_strobe (t := t) hj
  have hget := getElem?_strobes hlow hut
  rw [List.getElem?_eq_getElem hj, Option.some_inj] at hget
  obtain ⟨a, M, hb, hau, huM⟩ := exists_writeBurst hlow
  obtain ⟨i, rfl⟩ := Nat.exists_eq_add_of_le hau
  obtain ⟨N, rfl⟩ := h.exists_pairs hb
  obtain ⟨P, hP⟩ := h.exists_strobeCount hb.between
  rw [hget, Strobe.socket, hb.addr_toNat (by omega), hb.strobeCount_add (by omega), hP,
    bufferWords_eq]
  omega

/-- Every burst comes to an end. -/
theorem exists_between (inp : ℕ → Pins) (t : ℕ) : ∃ u, t ≤ u ∧ Between inp u := by
  by_cases hlow : SlwrLow inp t
  · obtain ⟨a, M, hb, -, htM⟩ := exists_writeBurst hlow
    exact ⟨a + M, Nat.le_of_lt htM, .inl hb.after⟩
  · exact ⟨t, Nat.le_refl t, .inl hlow⟩

/-! ## Delivery -/

/-- The packets of a log exchanged in pairs. -/
def exchanged (l : List Strobe) : List Strobe :=
  exchange bufferWords (l.length / (2 * bufferWords)) l

theorem EvenCounts.pairs_eq (h : EvenCounts inp) (ht : Between inp t) :
    2 * bufferWords * ((strobes inp t).length / (2 * bufferWords)) = (strobes inp t).length := by
  obtain ⟨P, hP⟩ := h.exists_strobeCount ht
  rw [strobeCount] at hP
  rw [hP, bufferWords_eq]
  omega

/-- The host gets the packets exchanged in pairs, however the two sides are interleaved. -/
structure DeliversExchanged (inp : ℕ → Pins) : Prop where
  /-- At any moment it has a beginning of that. -/
  ordered : ∀ drain t, ∃ u, t ≤ u ∧ (channel inp drain t).out.IsPrefix (exchanged (strobes inp u))
  /-- Nothing stays behind when the card is idle and the channel has settled. -/
  complete : ∀ drain t, sm inp t = .smIdle → Settled inp drain t →
    (channel inp drain t).out = exchanged (strobes inp t)

theorem EvenCounts.isPrefix_exchanged (h : EvenCounts inp) (htu : t ≤ u) (hu : Between inp u) :
    (channel inp drain t).out.IsPrefix (exchanged (strobes inp u)) :=
  channel_represents.isPrefix_exchange (by rw [bufferWords_eq]; omega) (strobes_isPrefix htu)
    (h.alternatesLate u) (h.pairs_eq hu)

theorem EvenCounts.out_eq_exchanged (h : EvenCounts inp) (hidle : sm inp t = .smIdle)
    (hs : Settled inp drain t) : (channel inp drain t).out = exchanged (strobes inp t) :=
  channel_represents.out_eq_exchange (by rw [bufferWords_eq]; omega) (h.alternatesLate t)
    (h.pairs_eq (between_of_smIdle hidle)) hs

/-- **With even packet counts the host gets every pair of packets the wrong way round.** -/
theorem deliversExchanged (h : EvenCounts inp) : DeliversExchanged inp where
  ordered drain t := by
    obtain ⟨u, htu, hu⟩ := exists_between inp t
    exact ⟨u, htu, h.isPrefix_exchanged htu hu⟩
  complete _ _ := h.out_eq_exchanged

theorem launch_eightPackets {l : ℕ} (h : Launch eightPackets l) : l = 12 :=
  launch_unique (fun _ ↦ rises_of_flagd (fun _ ↦ rfl) eightPackets_readBurst)
    eightPackets_readBurst eightPackets_writePhase h

/-- A single command for eight packets. -/
theorem evenCounts_eightPackets : EvenCounts eightPackets where
  range l h := by
    obtain rfl := launch_eightPackets h
    decide
  even l h := by
    obtain rfl := launch_eightPackets h
    decide

theorem deliversExchanged_eightPackets : DeliversExchanged eightPackets :=
  deliversExchanged evenCounts_eightPackets

/-! ## One burst at the host -/

/-- Word `i` of what the host gets of a burst has been strobed in the cycle of its partner. -/
theorem EvenCounts.getElem?_out (h : EvenCounts inp) (hb : WriteBurst inp a M) (hi : i < M)
    (hlen : strobeCount inp a + i < (channel inp drain t).out.length) :
    (channel inp drain t).out[strobeCount inp a + i]? =
      some { cycle := a + partner bufferWords i, addr := addr inp (a + partner bufferWords i),
             word := dq inp (a + partner bufferWords i) } := by
  obtain ⟨N, rfl⟩ := h.exists_pairs hb
  obtain ⟨P, hP⟩ := h.exists_strobeCount hb.between
  have hpos : 0 < bufferWords := by rw [bufferWords_eq]; omega
  have hpair : ∀ k, 2 * bufferWords * k = 8192 * k := fun k ↦ by rw [bufferWords_eq]
  -- a moment after the burst, between bursts
  obtain ⟨u, htu, hu⟩ := exists_between inp (max t (a + 8192 * N))
  have hau := Nat.le_trans (Nat.le_max_right t (a + 8192 * N)) htu
  have hpre : (channel inp drain t).out.IsPrefix (exchanged (strobes inp u)) :=
    h.isPrefix_exchanged (Nat.le_trans (Nat.le_max_left _ _) htu) hu
  have hp : partner bufferWords i < 8192 * N := hpair N ▸ partner_lt hpos ((hpair N).symm ▸ hi)
  have hplace : partner bufferWords (strobeCount inp a + i) =
      strobeCount inp a + partner bufferWords i := by
    rw [hP, ← hpair, partner_add hpos]
  have hin : strobeCount inp a + i < 2 * bufferWords * ((strobes inp u).length /
      (2 * bufferWords)) := by
    have hle := hpre.length_le
    rw [exchanged, length_exchange (Nat.le_of_eq (h.pairs_eq hu))] at hle
    rw [h.pairs_eq hu]
    omega
  rw [List.getElem?_eq_getElem hlen, ← List.prefix_iff_getElem?.mp hpre _ hlen, exchanged,
    getElem?_exchange hpos (Nat.le_of_eq (h.pairs_eq hu)) hin, hplace,
    ← hb.strobeCount_add (Nat.le_of_lt hp)]
  exact getElem?_strobes (hb.holds _ hp) (by omega)

theorem length_byteStream (l : List Strobe) : (byteStream l).length = 4 * l.length := by
  induction l with
  | nil => rfl
  | cons x l ih =>
    rw [byteStream, List.flatMap_cons, List.length_append, List.length_cons, Nat.mul_succ,
      Nat.add_comm]
    exact congrArg (· + 4) ih

/-- Byte `k` of word `i`. -/
theorem getElem?_byteStream (l : List Strobe) (i : ℕ) {k : ℕ} (hk : k < 4) :
    (byteStream l)[4 * i + k]? = l[i]?.map fun x ↦ byteOf x.word k := by
  induction l generalizing i with
  | nil => rfl
  | cons x l ih =>
    rw [byteStream, List.flatMap_cons]
    cases i with
    | zero =>
      rw [List.getElem?_append_left (by show 4 * 0 + k < 4; omega)]
      obtain rfl | rfl | rfl | rfl : k = 0 ∨ k = 1 ∨ k = 2 ∨ k = 3 := by omega
      all_goals rfl
    | succ i =>
      have hlen : (bytesOf x.word).length = 4 := rfl
      rw [List.getElem?_append_right (by omega), hlen,
        show 4 * (i + 1) + k - 4 = 4 * i + k by omega, List.getElem?_cons_succ]
      exact ih i

/-- The bytes in a buffer. -/
def bufferBytes : ℕ := dmaMultiCfgSize superSpeed

theorem bufferBytes_eq : bufferBytes = 16384 := rfl

/-- Bytes change places as the words they are in. -/
theorem partner_bytes (n : ℕ) :
    partner bufferBytes n = 4 * partner bufferWords (n / 4) + n % 4 := by
  rw [partner, partner, bufferWords_eq, bufferBytes_eq]
  split <;> split <;> omega

/-- **What the host has of a burst**: at the place the burst has in the stream, byte `n` of what it
gets is byte `partner bufferBytes n` of what the card has written, as soon as it is there. -/
theorem EvenCounts.hostStream_burst (h : EvenCounts inp) (hb : WriteBurst inp a M) (hn : n < 4 * M)
    (hlen : 4 * strobeCount inp a + n < (hostStream inp drain t).length) :
    (hostStream inp drain t)[4 * strobeCount inp a + n]? =
      some (burstByte inp a (partner bufferBytes n)) := by
  have hk : n % 4 < 4 := Nat.mod_lt n (by omega)
  rw [hostStream, length_byteStream] at hlen
  rw [hostStream, show 4 * strobeCount inp a + n = 4 * (strobeCount inp a + n / 4) + n % 4 by omega,
    getElem?_byteStream _ _ hk, h.getElem?_out hb (by omega) (by omega), burstByte, partner_bytes,
    Nat.mul_add_div (by omega), Nat.mul_add_mod, Nat.mod_mod, Nat.div_eq_of_lt hk]
  rfl

/-- When the card is idle again and the channel has settled, a burst has reached the host. -/
theorem EvenCounts.length_hostStream (h : EvenCounts inp) (hb : WriteBurst inp a M)
    (hidle : sm inp t = .smIdle) (hs : Settled inp drain t) (hle : a + M ≤ t) :
    4 * strobeCount inp a + 4 * M ≤ (hostStream inp drain t).length := by
  have hsent : strobeCount inp (a + M) ≤ strobeCount inp t := (strobes_isPrefix hle).length_le
  have hend := hb.strobeCount_add (Nat.le_refl M)
  have hlen : (exchanged (strobes inp t)).length = strobeCount inp t :=
    length_exchange (Nat.le_of_eq (h.pairs_eq (between_of_smIdle hidle)))
  rw [hostStream, length_byteStream, h.out_eq_exchanged hidle hs, hlen]
  omega

end Fx3
end Usb3FpgaCard
