import Usb3FpgaCard.Channels.Bounded
import Usb3FpgaCard.Fx3.Sockets

/-!
# The card and the P-to-U channel it has

`board` is the card together with the words in its two producer sockets.  A socket has room for
`socketWords` words and loses what is strobed while it is full; `FLAGA` tells the card whether
socket 1 has a free buffer; after each cycle the DMA hardware makes some attempts to forward a
buffer.

Both other models of the channel are models of this one.  `system` only counts the words in each
socket, and that is enough to tell when there is no room (`system_board`); `channel` has the words
but no bound.  The board is in the state of the second exactly as long as the first has lost nothing
(`board_eq_channel_iff`), so what is known of that channel is known of the board in the runs in
which nothing is lost.
-/

set_option autoImplicit false

namespace Usb3FpgaCard
namespace Fx3

open Clocked Channels Fpga

/-- The card and the words in its sockets. -/
structure Board where
  /-- The number of the cycle, for the log. -/
  cycle : ℕ
  /-- The card. -/
  card : Fpga.State
  /-- The sockets, and what the host has. -/
  channel : ManyToOne Strobe

namespace Board

variable (s : Board) (p : Pins)

/-- The number of free buffers of a socket. -/
def free (k : ℕ) : ℕ := (socketWords - (s.channel.queue k).length) / bufferWords

/-- The pins of the card if the sockets have no part in them but `FLAGA`. -/
def pins : Pins :=
  { p with flaga := decide (0 < s.free 1), flagb := decide (0 < s.free 1) && p.flagb }

/-- What is strobed. -/
def strobe : Option Strobe :=
  if s.card.regs.slwr1d = false then
    some { cycle := s.cycle, addr := s.card.regs.gpifAddressD, word := s.card.regs.dq (s.pins p) }
  else none

/-- The sockets with the word strobed. -/
def offered : ManyToOne Strobe := s.channel.offer Strobe.socket socketWords (s.strobe p)

/-- One cycle, after which there are `k` attempts to forward a buffer. -/
def next (k : ℕ) : Board where
  cycle := s.cycle + 1
  card := s.card.cycle (s.pins p)
  channel := (ManyToOne.forward validSckCount bufferWords)^[k] (s.offered p)

end Board

/-- The board from reset. -/
def board : Machine Board (Pins × ℕ) where
  reset := { cycle := 0, card := fpga.reset, channel := ManyToOne.start }
  edge s i := s.next i.1 i.2

section run

variable (inp : ℕ → Pins × ℕ) (t : ℕ)

/-- The pins of the card in cycle `t`. -/
def boardPins : Pins := (board.run inp t).pins (inp t).1

/-- The attempts to forward after each cycle. -/
def boardDrain : ℕ := (inp t).2

/-- What has happened in cycle `t` as `system` sees it. -/
def boardEnv : Env where
  flagb := (inp t).1.flagb
  flagc := (inp t).1.flagc
  flagd := (inp t).1.flagd
  dq := (inp t).1.dq
  pb := (inp t).1.pb
  allCtrReset := (inp t).1.allCtrReset
  release k := ManyToOne.taken validSckCount bufferWords ((board.run inp t).offered (inp t).1)
    (inp t).2 k

end run

variable {inp : ℕ → Pins × ℕ} {t u k l : ℕ}

theorem board_card : (board.run inp t).card = fpga.run (boardPins inp) t :=
  Machine.run_proj (M := fpga) (N := board) Board.card (fun s i ↦ s.pins i.1) rfl
    (fun _ _ ↦ rfl) inp t

theorem board_cycle : (board.run inp t).cycle = t := by
  induction t with
  | zero => rfl
  | succ t ih => exact congrArg Nat.succ ih

theorem board_strobe : (board.run inp t).strobe (inp t).1 = strobeAt (boardPins inp) t := by
  rw [Board.strobe, board_cycle, board_card]
  rfl

theorem channel_board_succ :
    (board.run inp (t + 1)).channel =
      (ManyToOne.forward validSckCount bufferWords)^[boardDrain inp t]
        ((board.run inp t).channel.offer Strobe.socket socketWords
          (strobeAt (boardPins inp) t)) := by
  rw [← board_strobe]
  rfl

/-! ## The counting model -/

namespace Socket

variable {s : Socket} {n : ℕ}

/-- Buffers that are full are released. -/
theorem held_release (h : bufferWords * n ≤ s.held) :
    (s.release n).held + bufferWords * n = s.held := by
  have hn : n ≤ s.held / bufferWords := by
    rw [Nat.le_div_iff_mul_le (by rw [bufferWords_eq]; omega), Nat.mul_comm]
    exact h
  show s.held - bufferWords * min n (s.held / bufferWords) + bufferWords * n = s.held
  rw [Nat.min_eq_left hn]
  exact Nat.sub_add_cancel h

end Socket

/-- The words of a socket and their number, one write later. -/
theorem held_write_eq {c : ManyToOne Strobe} {s : Socket} {o : Option Strobe} {P : Prop}
    [Decidable P] (h : s.held = (c.queue k).length) (hP : P ↔ ∃ x ∈ o, x.socket = k) :
    (if P then s.write else s).held =
      ((c.offer Strobe.socket socketWords o).queue k).length := by
  cases o with
  | none =>
    rw [if_neg fun hp ↦ by simpa using hP.mp hp]
    exact h
  | some x =>
    have hk : P ↔ x.socket = k := by simpa using hP
    by_cases hroom : (c.queue x.socket).length < socketWords
    · rw [ManyToOne.length_queue_offer hroom]
      split
      case isTrue hp =>
        obtain rfl := hk.mp hp
        rw [if_pos rfl, Socket.held_write (by rwa [Socket.HasRoom, h]), h]
      case isFalse hp => rw [if_neg fun hx ↦ hp (hk.mpr hx), h, Nat.add_zero]
    · rw [ManyToOne.offer_of_full hroom, ← h]
      split
      case isTrue hp =>
        obtain rfl := hk.mp hp
        rw [Socket.write, dif_neg (by rwa [Socket.HasRoom, h])]
      case isFalse => rfl

theorem exists_mem_strobeAt_iff (p : ℕ → Pins) :
    (∃ x ∈ strobeAt p t, x.socket = k) ↔ SlwrLow p t ∧ (addr p t).toNat = k := by
  by_cases hw : SlwrLow p t
  · simp [strobeAt_of_slwrLow hw, hw, Strobe.socket]
  · simp [strobeAt_of_not_slwrLow hw, hw]

/-- **Counting is enough**: `system` runs on the board's pins, and the number of words it has in
each socket is the number of words there are. -/
theorem system_board (inp : ℕ → Pins × ℕ) (t : ℕ) :
    (system.run (boardEnv inp) t).card = (board.run inp t).card ∧
      ∀ k, (socket (boardEnv inp) t k).held = ((board.run inp t).channel.queue k).length := by
  induction t with
  | zero => exact ⟨rfl, fun _ ↦ rfl⟩
  | succ t ih =>
    obtain ⟨hcard, hheld⟩ := ih
    have hpins : pins (boardEnv inp) t = boardPins inp t := by
      have hfree : ((system.run (boardEnv inp) t).sockets 1).free = (board.run inp t).free 1 :=
        congrArg (fun n ↦ (socketWords - n) / bufferWords) (hheld 1)
      rw [pins, Env.pins, hfree]
      rfl
    have hregs : regs (pins (boardEnv inp)) t = regs (boardPins inp) t := by
      rw [regs, regs, ← system_card, ← board_card, hcard]
    refine ⟨?_, fun k ↦ ?_⟩
    · show (system.run (boardEnv inp) t).card.cycle (pins (boardEnv inp) t) =
        (board.run inp t).card.cycle (boardPins inp t)
      rw [hpins, hcard]
    · rw [socket_succ, channel_board_succ]
      have hwritten : SlwrLow (pins (boardEnv inp)) t ∧ (addr (pins (boardEnv inp)) t).toNat = k ↔
          ∃ x ∈ strobeAt (boardPins inp) t, x.socket = k := by
        rw [exists_mem_strobeAt_iff, SlwrLow, SlwrLow, addr, addr, hregs]
      have hwrite := held_write_eq (hheld k) hwritten
      have htaken := ManyToOne.length_forward_iterate (n := validSckCount) (B := bufferWords)
        (by rw [bufferWords_eq]; omega) ((board.run inp t).offered (inp t).1) (inp t).2 k
      rw [Board.offered, board_strobe, ← hwrite] at htaken
      have hrelease := Socket.held_release (Nat.le.intro ((Nat.add_comm _ _).trans htaken))
      simp only [boardEnv, boardDrain, Board.offered, board_strobe]
      exact Nat.add_right_cancel (hrelease.trans htaken.symm)

theorem pins_board (inp : ℕ → Pins × ℕ) : pins (boardEnv inp) = boardPins inp := by
  funext t
  have hfree : ((system.run (boardEnv inp) t).sockets 1).free = (board.run inp t).free 1 :=
    congrArg (fun n ↦ (socketWords - n) / bufferWords) ((system_board inp t).2 1)
  rw [pins, Env.pins, hfree]
  rfl

/-- `HasRoom` is room for the word strobed. -/
theorem hasRoom_board (h : SlwrLow (boardPins inp) t) :
    (socket (boardEnv inp) t (addr (pins (boardEnv inp)) t).toNat).HasRoom ↔
      ∀ x, strobeAt (boardPins inp) t = some x →
        ((board.run inp t).channel.queue x.socket).length < socketWords := by
  rw [strobeAt_of_slwrLow h, Socket.HasRoom, (system_board inp t).2, pins_board]
  exact ⟨fun hroom x hx ↦ Option.some_inj.mp hx ▸ hroom, fun hroom ↦ hroom _ rfl⟩

/-! ## The channel without a bound -/

/-- The words the board has been given: all that were strobed only if none has been lost. -/
theorem exists_represents (inp : ℕ → Pins × ℕ) (t : ℕ) :
    ∃ W, (board.run inp t).channel.Represents validSckCount bufferWords Strobe.socket W ∧
      W.length ≤ (strobes (boardPins inp) t).length ∧
      (W.length = (strobes (boardPins inp) t).length → RoomUntil (boardEnv inp) t) := by
  induction t with
  | zero => exact ⟨[], ManyToOne.represents_start, Nat.le_refl 0, fun _ _ h ↦ absurd h (by omega)⟩
  | succ t ih =>
    obtain ⟨W, hW, hle, hroom⟩ := ih
    rw [channel_board_succ, strobes, roomUntil_succ, pins_board]
    by_cases hw : SlwrLow (boardPins inp) t
    case neg =>
      rw [strobeAt_of_not_slwrLow hw, Option.toList_none, List.append_nil]
      exact ⟨W, hW.forward_iterate _, hle, fun h ↦ ⟨hroom h, fun h' ↦ absurd h' hw⟩⟩
    obtain ⟨x, hx⟩ : ∃ x, strobeAt (boardPins inp) t = some x := ⟨_, strobeAt_of_slwrLow hw⟩
    have hhas := hasRoom_board hw
    rw [pins_board] at hhas
    rw [hx, Option.toList_some, List.length_append, List.length_singleton]
    by_cases hfull : ((board.run inp t).channel.queue x.socket).length < socketWords
    · refine ⟨W ++ [x], (hW.offer hfull).forward_iterate _, ?_, fun h ↦ ⟨hroom ?_, fun _ ↦ ?_⟩⟩
      · rw [List.length_append, List.length_singleton]
        exact Nat.succ_le_succ hle
      · rw [List.length_append, List.length_singleton] at h
        exact Nat.succ.inj h
      · exact hhas.mpr fun y hy ↦ Option.some.inj (hx.symm.trans hy) ▸ hfull
    · rw [ManyToOne.offer_of_full hfull]
      exact ⟨W, hW.forward_iterate _, Nat.le_succ_of_le hle, fun h ↦ absurd h (by omega)⟩

/-- As long as nothing is lost the board has the channel. -/
theorem board_eq_channel_of_roomUntil (hroom : RoomUntil (boardEnv inp) t) :
    (board.run inp t).channel = channel (boardPins inp) (boardDrain inp) t := by
  induction t with
  | zero => rfl
  | succ t ih =>
    obtain ⟨hbefore, hnow⟩ := roomUntil_succ.mp hroom
    rw [pins_board] at hnow
    rw [channel_board_succ, ManyToOne.offer_eq_accept fun x hx ↦ ?_, ih hbefore]
    · rfl
    · by_cases hw : SlwrLow (boardPins inp) t
      · have hhas := hasRoom_board hw
        rw [pins_board] at hhas
        exact hhas.mp (hnow hw) x hx
      · rw [strobeAt_of_not_slwrLow hw] at hx
        cases hx

/-- Without a loss the board has the channel. -/
theorem board_eq_channel (hroom : NoOverrun (boardEnv inp)) (t : ℕ) :
    (board.run inp t).channel = channel (boardPins inp) (boardDrain inp) t :=
  board_eq_channel_of_roomUntil fun u _ ↦ hroom u

/-- **The bound does not matter until a word is lost, and it does from then on**: in every cycle the
board is in the state of the channel without a bound if and only if there has been room for every
word strobed before. -/
theorem board_eq_channel_iff (inp : ℕ → Pins × ℕ) (t : ℕ) :
    (board.run inp t).channel = channel (boardPins inp) (boardDrain inp) t ↔
      RoomUntil (boardEnv inp) t := by
  refine ⟨fun heq ↦ ?_, board_eq_channel_of_roomUntil⟩
  obtain ⟨W, hW, -, hroom⟩ := exists_represents inp t
  rw [heq] at hW
  exact hroom (hW.length_unique channel_represents)

end Fx3
end Usb3FpgaCard
