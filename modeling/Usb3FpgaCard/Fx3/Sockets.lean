import Mathlib.Data.Nat.Count
import Usb3FpgaCard.Fx3.Channel

/-!
# The buffers of the P-to-U channel

The card and the two producer sockets as one machine.  Each socket has 4 buffers of 4096 words,
which the USB side releases whenever it likes; `FLAGA` tells the card whether socket 1 has a free
buffer, and `FLAGB` is any signal that is high only if `FLAGA` is.

The card looks at the flags before a burst and not again, so it loses nothing if both sockets have
all the buffers for a burst free when it is launched: half of the packets each, and socket 0 one
more if their number is odd (`Fits`).  It does not check that.  `FLAGA` stands for one buffer of
socket 1 and none of socket 0, and a launch that does not fit overruns a socket unless the USB side
is fast enough (`noOverrun_of_fits`).
-/

set_option autoImplicit false

namespace Usb3FpgaCard
namespace Fx3

open Clocked Fpga

/-! ## A socket -/

/-- `CY_FX_SLFIFO_DMA_BUF_COUNT_P_2_U`. -/
def dmaBufCountPToU : ℕ := 4

/-- The words the buffers of a socket hold. -/
def socketWords : ℕ := dmaBufCountPToU * bufferWords

/-- A producer socket.  Its buffers are filled one after the other, so the number of words in them
says which are full, which is being filled and which are free. -/
@[ext] structure Socket where
  /-- The words in the buffers. -/
  held : ℕ
  /-- They are in the buffers. -/
  le : held ≤ socketWords

namespace Socket

/-- No buffer is in use. -/
def empty : Socket := ⟨0, Nat.zero_le _⟩

variable (s : Socket)

/-- The number of free buffers. -/
def free : ℕ := (socketWords - s.held) / bufferWords

/-- There is room for a word. -/
def HasRoom : Prop := s.held < socketWords

instance : Decidable s.HasRoom := inferInstanceAs (Decidable (_ < _))

/-- A word is written, and lost if there is no room. -/
def write : Socket := if h : s.HasRoom then ⟨s.held + 1, h⟩ else s

/-- The USB side releases `n` full buffers, or all there are. -/
def release (n : ℕ) : Socket :=
  ⟨s.held - bufferWords * min n (s.held / bufferWords), Nat.le_trans (Nat.sub_le _ _) s.le⟩

variable {s}

theorem held_write (h : s.HasRoom) : s.write.held = s.held + 1 := by rw [write, dif_pos h]

theorem held_write_le : s.write.held ≤ s.held + 1 := by
  rw [write]
  split
  · exact Nat.le_refl _
  · exact Nat.le_succ _

theorem held_release_le (n : ℕ) : (s.release n).held ≤ s.held := Nat.sub_le _ _

theorem release_zero : s.release 0 = s := by
  refine Socket.ext ?_
  show s.held - bufferWords * min 0 (s.held / bufferWords) = s.held
  rw [Nat.zero_min, Nat.mul_zero, Nat.sub_zero]

/-- Free buffers counted in words. -/
theorem le_free_iff {n : ℕ} : n ≤ s.free ↔ s.held + bufferWords * n ≤ socketWords := by
  rw [free, Nat.le_div_iff_mul_le (by rw [bufferWords_eq]; omega), Nat.mul_comm]
  have := s.le
  omega

end Socket

/-! ## The card and its sockets -/

/-- What is not determined in a cycle: the pins the sockets have no part in, `FLAGB` while `FLAGA`
is high, and the number of buffers of each socket the USB side releases. -/
structure Env where
  /-- `FLAGB` while `FLAGA` is high. -/
  flagb : Bool
  /-- `FLAGC`. -/
  flagc : Bool
  /-- `FLAGD`. -/
  flagd : Bool
  /-- What the FX3 puts on `DQ`. -/
  dq : BitVec 32
  /-- `PB`. -/
  pb : Fin 4 → BitVec 4
  /-- `all_ctr_reset`. -/
  allCtrReset : Bool
  /-- The buffers released. -/
  release : ℕ → ℕ

/-- The pins of the card.  `FLAGA` is `Thread_1_DMA_Ready`. -/
def Env.pins (e : Env) (sockets : ℕ → Socket) : Pins where
  flaga := decide (0 < (sockets 1).free)
  flagb := decide (0 < (sockets 1).free) && e.flagb
  flagc := e.flagc
  flagd := e.flagd
  dq := e.dq
  pb := e.pb
  allCtrReset := e.allCtrReset

/-- The card and its sockets. -/
structure System where
  /-- The card. -/
  card : Fpga.State
  /-- The sockets, by number. -/
  sockets : ℕ → Socket

/-- One cycle: the word strobed is written to the socket addressed, then buffers are released. -/
def System.cycle (s : System) (e : Env) : System where
  card := s.card.cycle (e.pins s.sockets)
  sockets k :=
    (if s.card.regs.slwr1d = false ∧ s.card.regs.gpifAddressD.toNat = k then (s.sockets k).write
      else s.sockets k).release (e.release k)

/-- The card and its sockets from reset, all buffers free. -/
def system : Machine System Env where
  reset := { card := fpga.reset, sockets := fun _ ↦ Socket.empty }
  edge := System.cycle

section run

variable (env : ℕ → Env) (t k : ℕ)

/-- Socket `k` in cycle `t`. -/
def socket : Socket := (system.run env t).sockets k

/-- The pins of the card in cycle `t`. -/
def pins : Pins := (env t).pins (system.run env t).sockets

/-- Every word strobed has room. -/
def NoOverrun : Prop :=
  ∀ t, SlwrLow (pins env) t → (socket env t (addr (pins env) t).toNat).HasRoom

/-- Every word strobed before cycle `t` has room. -/
def RoomUntil : Prop :=
  ∀ u, u < t → SlwrLow (pins env) u → (socket env u (addr (pins env) u).toNat).HasRoom

/-- There are free buffers for all packets launched in cycle `l`. -/
structure Fits (l : ℕ) : Prop where
  /-- Socket 0 gets the larger half. -/
  zero : ((packetCount (pins env) l).toNat + 1) / 2 ≤ (socket env l 0).free
  /-- Socket 1 gets the smaller half. -/
  one : (packetCount (pins env) l).toNat / 2 ≤ (socket env l 1).free

end run

variable {env : ℕ → Env} {t u k l b M N : ℕ}

/-- The card in this machine runs as it does alone, under the pins it has here. -/
theorem system_card : (system.run env t).card = fpga.run (pins env) t :=
  Machine.run_proj (M := fpga) (N := system) System.card (fun s e ↦ e.pins s.sockets) rfl
    (fun _ _ ↦ rfl) env t

theorem roomUntil_succ :
    RoomUntil env (t + 1) ↔ RoomUntil env t ∧
      (SlwrLow (pins env) t → (socket env t (addr (pins env) t).toNat).HasRoom) := by
  simp only [RoomUntil, Nat.lt_succ_iff_lt_or_eq, or_imp, forall_and, forall_eq]

theorem socket_succ :
    socket env (t + 1) k =
      (if SlwrLow (pins env) t ∧ (addr (pins env) t).toNat = k then (socket env t k).write
        else socket env t k).release ((env t).release k) := by
  have hcard : (system.run env t).card.regs = regs (pins env) t :=
    congrArg State.regs system_card
  show Socket.release (if (system.run env t).card.regs.slwr1d = false ∧
    (system.run env t).card.regs.gpifAddressD.toNat = k then _ else _) _ = _
  rw [hcard]
  rfl

theorem held_succ_le (env : ℕ → Env) (t k : ℕ) :
    (socket env (t + 1) k).held ≤ (socket env t k).held +
      if SlwrLow (pins env) t ∧ (addr (pins env) t).toNat = k then 1 else 0 := by
  rw [socket_succ]
  refine Nat.le_trans (Socket.held_release_le _) ?_
  split
  · exact Socket.held_write_le
  · exact Nat.le_refl _

theorem held_succ_of_not_release (hr : (env t).release k = 0) (hs : NoOverrun env) :
    (socket env (t + 1) k).held = (socket env t k).held +
      if SlwrLow (pins env) t ∧ (addr (pins env) t).toNat = k then 1 else 0 := by
  rw [socket_succ, hr, Socket.release_zero]
  split
  · next hw =>
    obtain ⟨hlow, rfl⟩ := hw
    exact Socket.held_write (hs t hlow)
  · rfl

/-! ## What a burst needs -/

/-- Of the last `n` words of a burst, how many go to socket `k`. -/
def need (k n : ℕ) : ℕ := Nat.count (fun r ↦ r / 4096 % 2 = k) n

theorem need_succ (k n : ℕ) : need k (n + 1) = need k n + if n / 4096 % 2 = k then 1 else 0 :=
  Nat.count_succ _ _

/-- What the next word of a burst of `M` takes. -/
theorem need_sub {i : ℕ} (hi : i < M) :
    need k (M - i) = need k (M - (i + 1)) + if (M - 1 - i) / 4096 % 2 = k then 1 else 0 := by
  obtain ⟨n, rfl⟩ : ∃ n, M = n + 1 + i := ⟨M - i - 1, by omega⟩
  rw [show n + 1 + i - i = n + 1 by omega, show n + 1 + i - (i + 1) = n by omega,
    show n + 1 + i - 1 - i = n by omega, need_succ]

theorem need_block {i : ℕ} (hi : i ≤ 4096) :
    need k (4096 * N + i) = need k (4096 * N) + if N % 2 = k then i else 0 := by
  induction i with
  | zero => split <;> rfl
  | succ i ih =>
    rw [← Nat.add_assoc, need_succ, ih (Nat.le_of_succ_le hi),
      show (4096 * N + i) / 4096 = N by omega]
    split <;> rfl

/-- **The packets of a burst are shared out**, the odd one to socket 0. -/
theorem need_packets (N : ℕ) :
    need 0 (4096 * N) = 4096 * ((N + 1) / 2) ∧ need 1 (4096 * N) = 4096 * (N / 2) := by
  induction N with
  | zero => exact ⟨rfl, rfl⟩
  | succ N ih =>
    rw [Nat.mul_succ, need_block (Nat.le_refl _), need_block (Nat.le_refl _), ih.1, ih.2]
    rcases Nat.mod_two_eq_zero_or_one N with h | h <;> rw [h] <;> simp <;> omega

theorem need_lt {r n : ℕ} (h : r < n) : need (r / 4096 % 2) r < need (r / 4096 % 2) n :=
  Nat.count_strict_mono rfl h

/-- A launch that fits has room for what the burst needs. -/
theorem fits_iff_need (h1 : 1 ≤ (packetCount (pins env) l).toNat)
    (h2 : (packetCount (pins env) l).toNat ≤ 2 ^ 20) :
    Fits env l ↔
      (socket env l 0).held + need 0 (wordCount (packetCount (pins env) l)) ≤ socketWords ∧
      (socket env l 1).held + need 1 (wordCount (packetCount (pins env) l)) ≤ socketWords := by
  obtain ⟨hz, ho⟩ := need_packets (packetCount (pins env) l).toNat
  rw [wordCount_eq h1 h2, hz, ho]
  exact ⟨fun h ↦ ⟨Socket.le_free_iff.mp h.zero, Socket.le_free_iff.mp h.one⟩,
    fun h ↦ ⟨Socket.le_free_iff.mpr h.1, Socket.le_free_iff.mpr h.2⟩⟩

/-! ## A burst that fits -/

/-- Without strobes a socket does not fill. -/
theorem held_le_of_not_slwrLow (k : ℕ) (htu : t ≤ u)
    (h : ∀ v, t ≤ v → v < u → ¬ SlwrLow (pins env) v) :
    (socket env u k).held ≤ (socket env t k).held := by
  induction u with
  | zero => rw [Nat.le_zero.mp htu]
  | succ u ih =>
    rcases Nat.eq_or_lt_of_le htu with rfl | hlt
    · exact Nat.le_refl _
    · refine Nat.le_trans (held_succ_le env u k) ?_
      rw [if_neg fun hw ↦ h u (by omega) (by omega) hw.1, Nat.add_zero]
      exact ih (by omega) fun v h1 h2 ↦ h v h1 (by omega)

/-- **What is in a socket and what is still to come** for it do not add up to more than at the
start of the burst, whatever is released meanwhile. -/
theorem held_add_need_le {a : ℕ} (h : WriteBurst (pins env) a M) {i : ℕ} (hi : i ≤ M) :
    (socket env (a + i) k).held + need k (M - i) ≤ (socket env a k).held + need k M := by
  induction i with
  | zero => exact Nat.le_refl _
  | succ i ih =>
    refine Nat.le_trans ?_ (ih (Nat.le_of_succ_le hi))
    have hstep := held_succ_le env (a + i) k
    simp only [h.holds i hi, h.addr_toNat hi, true_and] at hstep
    rw [need_sub hi, ← Nat.add_assoc a]
    omega

/-- Nothing is lost when every launch fits. -/
theorem hasRoom_of_fits (hN : CountsInRange (pins env))
    (hfits : ∀ l, Launch (pins env) l → Fits env l) : NoOverrun env := by
  intro u hu
  obtain ⟨a, M, hb, hau, huM⟩ := exists_writeBurst hu
  obtain ⟨l, b, hp, rfl, rfl⟩ := hb.exists_launch
  obtain ⟨i, rfl⟩ : ∃ i, u = b + 1 + i := ⟨u - (b + 1), by omega⟩
  have hi : i < wordCount (packetCount (pins env) l) := by omega
  obtain ⟨hlo, hhi⟩ := hN l hp.launch
  obtain ⟨h0, h1⟩ := (fits_iff_need hlo hhi).mp (hfits l hp.launch)
  rw [hb.addr_toNat hi]
  -- the word itself is among those still to come for its socket
  have hneed := need_lt (r := wordCount (packetCount (pins env) l) - 1 - i)
    (n := wordCount (packetCount (pins env) l) - i) (by omega)
  have hle := held_add_need_le hb (k := (wordCount (packetCount (pins env) l) - 1 - i) / 4096 % 2)
    (Nat.le_of_lt hi)
  have hlb := hp.lt
  have hstart := held_le_of_not_slwrLow ((wordCount (packetCount (pins env) l) - 1 - i) / 4096 % 2)
    (show l ≤ b + 1 by omega) fun v h1 h2 ↦ hp.not_slwrLow h1 (by omega)
  rw [Socket.HasRoom]
  rcases Nat.mod_two_eq_zero_or_one
    ((wordCount (packetCount (pins env) l) - 1 - i) / 4096) with hk | hk <;>
    rw [hk] at hneed hle hstart ⊢ <;> omega

/-! ## A burst that does not fit -/

/-- The launch has seen a free buffer of socket 1, and it is still free. -/
theorem free_of_launch (h : Launch (pins env) l) : 0 < (socket env l 1).free := by
  have hnext := sm_next_smWaitFlaga h.waitFlaga
  cases l with
  | zero => exact absurd h.waitFlaga (by simp [sm_zero])
  | succ l =>
    rw [flagaD_succ, h.waitFlagb] at hnext
    have hflag : (pins env l).flaga = true := by
      by_contra hno
      rw [if_neg hno] at hnext
      simp at hnext
    have hfree : 0 < (socket env l 1).free := of_decide_eq_true hflag
    have hquiet : ¬ SlwrLow (pins env) l := by
      intro hw
      obtain ⟨w, rfl, hs⟩ := slwrLow_iff.mp hw
      have h1 := sm_edge (pins env) w
      have h2 := sm_edge (pins env) (w + 1)
      rw [h.waitFlaga] at h2
      rw [hs] at h1
      rcases h2.to_smWaitFlaga with hs' | hs' <;> rw [hs'] at h1 <;> cases h1
    have hheld := held_le_of_not_slwrLow 1 (Nat.le_succ l) fun v h1 h2 ↦
      (show v = l by omega) ▸ hquiet
    exact Nat.lt_of_lt_of_le hfree (Nat.div_le_div_right (Nat.sub_le_sub_left hheld _))

/-- Without releases the sockets hold all a burst has written. -/
theorem held_add_need_of_not_release {a : ℕ} (h : WriteBurst (pins env) a M) (hs : NoOverrun env)
    (hr : ∀ u, a ≤ u → (env u).release k = 0) {i : ℕ} (hi : i ≤ M) :
    (socket env (a + i) k).held + need k (M - i) = (socket env a k).held + need k M := by
  induction i with
  | zero => rfl
  | succ i ih =>
    rw [← ih (Nat.le_of_succ_le hi)]
    have hstep := held_succ_of_not_release (hr (a + i) (Nat.le_add_right a i)) hs
    simp only [h.holds i hi, h.addr_toNat hi, true_and] at hstep
    rw [need_sub hi, ← Nat.add_assoc a]
    omega

/-- **A launch that does not fit loses a word** when the USB side releases nothing any more. -/
theorem overrun_of_not_fits (hl : Launch (pins env) l)
    (h1 : 1 ≤ (packetCount (pins env) l).toNat) (h2 : (packetCount (pins env) l).toNat ≤ 2 ^ 20)
    (hflagb : (env l).flagb = true) (hr : ∀ u k, l ≤ u → (env u).release k = 0)
    (hnot : ¬ Fits env l) : ¬ NoOverrun env := by
  intro hs
  have hb : (pins env l).flagb = true := by
    show (decide (0 < (socket env l 1).free) && (env l).flagb) = true
    rw [hflagb, decide_eq_true (free_of_launch hl)]
    rfl
  have hp := hl.writePhase hb
  have hwait : ∀ k, (socket env (l + 3) k).held = (socket env l k).held := fun k ↦ by
    refine eq_of_stable (f := fun u ↦ (socket env u k).held) (by omega) fun u h1 h2 ↦ ?_
    have hstep := held_succ_of_not_release (hr u k h1) hs
    rwa [if_neg fun hw ↦ hp.not_slwrLow h1 (by omega) hw.1, Nat.add_zero] at hstep
  refine hnot ((fits_iff_need h1 h2).mpr ?_)
  have hend : ∀ k, (socket env l k).held + need k (wordCount (packetCount (pins env) l)) ≤
      socketWords := fun k ↦ by
    have h := held_add_need_of_not_release (k := k) hp.writeBurst hs
      (fun u hu ↦ hr u k (by omega)) (Nat.le_refl _)
    rw [hwait, Nat.sub_self] at h
    rw [← h]
    exact (socket env _ k).le
  exact ⟨hend 0, hend 1⟩

/-- The run `env` up to cycle `l`; from there on the USB side releases nothing and `FLAGB` follows
`FLAGA`. -/
def stalled (env : ℕ → Env) (l t : ℕ) : Env :=
  if t < l then env t else { env t with flagb := true, release := fun _ ↦ 0 }

theorem system_stalled : system.run (stalled env l) l = system.run env l :=
  Machine.run_congr fun _ hu ↦ if_pos hu

theorem regs_stalled : regs (pins (stalled env l)) l = regs (pins env) l := by
  have h : ∀ e : ℕ → Env, regs (pins e) l = (system.run e l).card.regs := fun e ↦
    congrArg State.regs system_card.symm
  rw [h, h, system_stalled]

theorem launch_stalled (h : Launch (pins env) l) : Launch (pins (stalled env l)) l := by
  have hs : sm (pins (stalled env l)) l = .smWaitFlaga := by
    rw [sm, regs_stalled]
    exact h.waitFlaga
  refine ⟨hs, ?_⟩
  rw [sm_next_smWaitFlaga hs, regs_stalled, ← sm_next_smWaitFlaga h.waitFlaga]
  exact h.waitFlagb

/-! ## When nothing is lost -/

/-- **No word is lost in a run in which every launch fits**; and where one does not, a word is
lost if the USB side does not release the buffers in time. -/
theorem noOverrun_of_fits (hN : CountsInRange (pins env)) :
    ((∀ l, Launch (pins env) l → Fits env l) → NoOverrun env) ∧
      ∀ l, Launch (pins env) l → ¬ Fits env l → ¬ NoOverrun (stalled env l) := by
  refine ⟨hasRoom_of_fits hN, fun l hl hnot ↦ ?_⟩
  have hcount : packetCount (pins (stalled env l)) l = packetCount (pins env) l := by
    rw [packetCount, config, regs_stalled]
    rfl
  have hsocket : ∀ k, socket (stalled env l) l k = socket env l k := fun k ↦ by
    rw [socket, system_stalled]
    rfl
  refine overrun_of_not_fits (launch_stalled hl) ?_ ?_ ?_ (fun u k hu ↦ ?_) fun hfits ↦ hnot ?_
  · exact hcount ▸ (hN l hl).1
  · exact hcount ▸ (hN l hl).2
  · rw [stalled, if_neg (Nat.lt_irrefl l)]
  · rw [stalled, if_neg (Nat.not_lt_of_le hu)]
  · exact ⟨hcount ▸ hsocket 0 ▸ hfits.zero, hcount ▸ hsocket 1 ▸ hfits.one⟩

/-- A command for `n` packets right after reset, and nothing is released. -/
def oneCommand (n : BitVec 32) (t : ℕ) : Env where
  flagb := true
  flagc := true
  flagd := decide (t < 5)
  dq := if t = 6 then Regs.header else if t = 7 then n else 0
  pb := fun _ ↦ 0
  allCtrReset := false
  release := fun _ ↦ 0

theorem eight_readBurst : ReadBurst (pins (oneCommand 8)) 4 5 :=
  readBurst_of_flagd (n := 3) sm_one rfl (by omega) (by decide) rfl

theorem eight_writePhase : WritePhase (pins (oneCommand 8)) 12 14 :=
  Launch.writePhase ⟨by decide, by decide⟩ (by decide)

theorem eight_launch (h : Launch (pins (oneCommand 8)) l) : l = 12 :=
  launch_unique (fun _ ↦ rises_of_flagd (fun _ ↦ rfl) eight_readBurst) eight_readBurst
    eight_writePhase h

/-- Eight packets fit after reset. -/
theorem noOverrun_eight : NoOverrun (oneCommand 8) := by
  have hN : CountsInRange (pins (oneCommand 8)) := fun l h ↦ by
    obtain rfl := eight_launch h
    decide
  refine (noOverrun_of_fits hN).1 fun l h ↦ ?_
  obtain rfl := eight_launch h
  exact ⟨by decide, by decide⟩

/-- **Sixteen do not.** -/
theorem overrun_sixteen : ¬ NoOverrun (oneCommand 16) :=
  overrun_of_not_fits (l := 12) ⟨by decide, by decide⟩ (by decide) (by decide) rfl
    (fun _ _ _ ↦ rfl) fun h ↦ absurd h.zero (by decide)

end Fx3
end Usb3FpgaCard
