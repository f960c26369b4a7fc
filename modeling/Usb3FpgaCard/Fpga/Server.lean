import Usb3FpgaCard.Fpga.Ledger
import Usb3FpgaCard.Fpga.Validity

/-!
# The card as a server of commands

Seen from the host, the card is a server with a very small state: the configuration of the last
command, and how much it has sent.  Serving a command sets the one and adds to the other.

`serverAt inp t` is that server after the commands read before cycle `t`.  Whenever the state
machine of the card rests between two transfers, its registers and the log of its strobes are in the
state of the server (`refines_server`), for any number of commands in a row, and whatever the flags
did meanwhile.
-/

set_option autoImplicit false

namespace Usb3FpgaCard
namespace Fpga

open Clocked

/-! ## The server -/

/-- The state of the server. -/
@[ext] structure Server where
  /-- The configuration. -/
  config : Config
  /-- The number of words sent. -/
  sent : ℕ

/-- The server after reset. -/
def Server.start : Server := ⟨Regs.reset.config, 0⟩

/-- A command is served. -/
def Server.serve (s : Server) (cmd : Config) : Server :=
  ⟨cmd, s.sent + answerWords cmd.packetsToSend⟩

/-- The server when it has served the commands read before cycle `t`. -/
def serverAt (inp : ℕ → Pins) (t : ℕ) : Server :=
  (bursts (SlrdLow inp) t).foldl (fun s x ↦ s.serve (Config.ofCommand (word inp x.1))) Server.start

/-- Every read burst is a complete command. -/
structure CompleteCommands (inp : ℕ → Pins) : Prop extends Commands inp where
  /-- It has all words of the header. -/
  five_le : ∀ t L, ReadBurst inp t L → 5 ≤ L

variable {inp : ℕ → Pins} {t r L : ℕ}

/-- What the server has sent is what the commands ask for. -/
theorem sent_serverAt (inp : ℕ → Pins) (t : ℕ) : (serverAt inp t).sent = asked inp t := by
  have hsum : ∀ (l : List (ℕ × ℕ)) (s : Server),
      (l.foldl (fun s x ↦ s.serve (Config.ofCommand (word inp x.1))) s).sent =
        s.sent + (l.map fun x ↦ answerWords (word inp x.1 1)).sum := by
    intro l
    induction l with
    | nil => exact fun s ↦ rfl
    | cons x l ih =>
      intro s
      rw [List.foldl_cons, ih, List.map_cons, List.sum_cons, ← Nat.add_assoc]
      rfl
  rw [serverAt, hsum, asked]
  exact Nat.zero_add _

/-! ## The last command -/

/-- At rest, either nothing has been read yet, or the last read burst is over and nothing has been
read since. -/
theorem exists_last_command (h : (sm inp t).Resting) :
    (∀ v, v ≤ t → ¬ SlrdLow inp v) ∧ bursts (SlrdLow inp) t = [] ∨
      ∃ r L, ReadBurst inp r L ∧ r + L + 3 ≤ t ∧ Quiet inp (r + L) t ∧
        bursts (SlrdLow inp) t = bursts (SlrdLow inp) r ++ [(r, L)] := by
  have hquiet : ∀ {u}, (sm inp u).Resting → ¬ SlrdLow inp u := fun hu hlow ↦ by
    rcases slrdLow_iff.mp hlow with hs | hs <;> simp [SmState.Resting, hs] at hu
  induction t with
  | zero =>
    refine .inl ⟨fun v hv ↦ ?_, rfl⟩
    obtain rfl := Nat.le_zero.mp hv
    exact not_slrdLow_zero
  | succ t ih =>
    rcases (sm_edge inp t).to_resting h with hs | ⟨hidle, hs⟩
    · -- the state machine was at rest before
      have hlog : bursts (SlrdLow inp) (t + 1) = bursts (SlrdLow inp) t :=
        if_neg (not_falls_of_resting hs)
      rw [hlog]
      refine (ih hs).imp ?_ ?_
      · rintro ⟨hnone, hnil⟩
        refine ⟨fun v hv ↦ ?_, hnil⟩
        rcases Nat.lt_succ_iff_lt_or_eq.mp (Nat.lt_succ_of_le hv) with hlt | rfl
        · exact hnone v (Nat.le_of_lt_succ hlt)
        · exact hquiet h
      · rintro ⟨r, L, hb, hle, hq, hlast⟩
        refine ⟨r, L, hb, Nat.le_succ_of_le hle, fun v h1 h2 ↦ ?_, hlast⟩
        rcases Nat.lt_succ_iff_lt_or_eq.mp (Nat.lt_succ_of_le h2) with hlt | rfl
        · exact hq v h1 (Nat.le_of_lt_succ hlt)
        · exact hquiet h
    · -- a transfer has just ended
      obtain ⟨r, L, hb, hle, hq, -⟩ := exists_transfer hidle hs
      refine .inr ⟨r, L, hb, hle, hq, ?_⟩
      rw [← Burst.bursts_succ hb]
      refine bursts_eq_of_not_falls (by omega) fun v h1 h2 hf ↦ ?_
      obtain ⟨w, rfl⟩ : ∃ w, v = w + 1 := ⟨v - 1, by omega⟩
      exact hq w (by omega) (by omega) (activeFor_ne_zero_iff.mp hf.2)

/-- Before the first command the configuration is that of reset. -/
theorem config_of_none (h : ∀ v, v ≤ t → ¬ SlrdLow inp v) : config inp t = Regs.reset.config := by
  have hstart : ∀ u, u ≤ 4 → config inp u = Regs.reset.config := by
    intro u hu
    induction u with
    | zero => rfl
    | succ u ih => rw [config_of_le_three u (by omega), ih (by omega)]
  rcases Nat.lt_or_ge t 4 with hlt | hge
  · exact hstart t (Nat.le_of_lt hlt)
  · rw [config_of_quiet (s := 0) hge fun u _ hu ↦ h u (by omega)]
    exact hstart 4 (Nat.le_refl 4)

/-! ## Refinement -/

/-- **The configuration at rest** is that of the last command. -/
theorem config_of_resting (hcmd : CompleteCommands inp) (h : (sm inp t).Resting) :
    config inp t = (serverAt inp t).config := by
  rcases exists_last_command h with ⟨hnone, hnil⟩ | ⟨r, L, hb, hle, hq, hlast⟩
  · rw [config_of_none hnone, serverAt, hnil]
    rfl
  · rw [hb.config_of_header (hcmd.header _ _ hb) (hcmd.five_le _ _ hb)
      (Nat.le_of_lt (hcmd.length _ _ hb)) hle fun v h1 h2 ↦ hq v h1 (by omega), serverAt, hlast,
      List.foldl_append]
    rfl

/-- **The card refines the server**: in every run in which it is sent complete commands, and in
every cycle in which it rests between two transfers. -/
theorem refines_server (hcmd : CompleteCommands inp) (h : (sm inp t).Resting) :
    Server.mk (config inp t) (strobeCount inp t) = serverAt inp t := by
  refine Server.ext (config_of_resting hcmd h) ?_
  rw [sent_serverAt]
  exact strobeCount_of_resting hcmd.toCommands h

/-- After its answer to a command for one packet. -/
theorem refines_server_onePacket :
    Server.mk (config onePacket 4111) (strobeCount onePacket 4111) = serverAt onePacket 4111 := by
  have hone : ∀ t L, ReadBurst onePacket t L → t = 4 ∧ L = 5 := fun t L h ↦ by
    obtain rfl : t = 4 := rises_of_flagd (fun _ ↦ rfl) onePacket_readBurst (Burst.rises h)
    exact ⟨rfl, Burst.length_unique h onePacket_readBurst⟩
  have hidle := onePacket_writePhase.sm_idle
  rw [onePacket_wordCount] at hidle
  refine refines_server ⟨⟨fun t L h ↦ ?_, fun t L h ↦ ?_⟩, fun t L h ↦ ?_⟩ (.inl hidle)
  all_goals obtain ⟨rfl, rfl⟩ := hone t L h
  · decide
  · omega
  · omega

end Fpga
end Usb3FpgaCard
