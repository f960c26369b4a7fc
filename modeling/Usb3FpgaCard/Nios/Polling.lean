import Usb3FpgaCard.Fpga.Counters

/-!
# The wait-time report: `fpga/software/nios_app/hello_world_small.c`

The Nios II polls `update_ctr_flag`, which is low while the state machine waits for `FLAGA` or
`FLAGB`, and prints `wait_ctr` when the flag has changed.  The two never agree on anything: the loop
reads the flag and the counter at different times, the flag does not wait for it, and the counter is
cleared as soon as the state machine is in `sm_idle`.

So a wait is noticed only if a pass of the loop falls into it and the next one sees the flag high
again (`NoticedAt`), and the number printed is the length of the wait only if it is read before the
state machine has been in `sm_idle` (`ReadInTime`).  The waits that are noticed are reported once
each, in order, and with the right number if it is read in time (`report`).
-/

set_option autoImplicit false

namespace Usb3FpgaCard
namespace Nios

open Clocked Fpga

/-! ## The loop of `main` -/

/-- The cycles in which `main` reads the two ports. -/
structure Polls where
  /-- Pass `k` reads `STATE_IO`, -/
  state : ℕ → ℕ
  /-- and after it `DATA_IO` if it prints. -/
  data : ℕ → ℕ
  /-- The greeting comes first. -/
  pos : 0 < state 0
  state_lt : ∀ k, state k < data k
  data_lt : ∀ k, data k < state (k + 1)

section main

variable (inp : ℕ → Pins) (p : Polls)

/-- `IORD_ALTERA_AVALON_PIO_DATA(STATE_IO_BASE)` in cycle `t`: the flag alone on a port of four
bits. -/
def stateIo (t : ℕ) : BitVec 32 := (BitVec.ofBool (regs inp t).updateCtrFlag).setWidth 32

/-- `IORD_ALTERA_AVALON_PIO_DATA(DATA_IO_BASE)` in cycle `t`. -/
def dataIo (t : ℕ) : BitVec 32 := (regs inp t).waitCtr

/-- A number that has been printed. -/
structure Line where
  /-- The pass that has printed it. -/
  pass : ℕ
  /-- `old_state`. -/
  oldState : BitVec 8
  /-- `new_state`. -/
  newState : BitVec 8
  /-- What `%d` shows. -/
  value : ℤ

/-- The loop between two passes. -/
structure Loop where
  /-- `old_state`. -/
  oldState : BitVec 8
  /-- All numbers so far. -/
  printed : List Line

/-- Pass `k`. -/
def Loop.pass (s : Loop) (k : ℕ) (stateIo dataIo : BitVec 32) : Loop :=
  let newState := stateIo.setWidth 8
  { oldState := newState
    printed :=
      if newState ≠ s.oldState then s.printed ++ [⟨k, s.oldState, newState, dataIo.toInt⟩]
      else s.printed }

/-- The loop after `m` passes. -/
def loop : ℕ → Loop
  | 0 => ⟨0, []⟩
  | m + 1 => (loop m).pass m (stateIo inp (p.state m)) (dataIo inp (p.data m))

/-- The numbers printed because the flag was seen to change from 0 to 1.  The first pass has not
seen it before. -/
def reported (m : ℕ) : List ℤ :=
  ((loop inp p m).printed.filter fun x ↦ 0 < x.pass ∧ x.oldState = 0 ∧ x.newState = 1).map
    Line.value

/-! ## What is reported -/

/-- What `%d` shows of a wait of `n` cycles: `wait_ctr` has 32 bits. -/
def shown (n : ℕ) : ℤ := (BitVec.ofNat 32 n).toInt

/-- Pass `k` sees the flag low in the wait `x`, and the next pass sees it high. -/
structure NoticedAt (x : ℕ × ℕ) (k : ℕ) : Prop where
  lt : x.1 < p.state k
  le : p.state k ≤ x.1 + x.2
  next : (regs inp (p.state (k + 1))).updateCtrFlag = true

/-- The wait is noticed. -/
def Noticed (x : ℕ × ℕ) : Prop := ∃ k, NoticedAt inp p x k

/-- The counter is read before the state machine has been in `sm_idle` after the wait. -/
def ReadInTime (x : ℕ × ℕ) : Prop :=
  ∀ k, NoticedAt inp p x k → ∀ v, x.1 + x.2 ≤ v → v < p.data (k + 1) → sm inp v ≠ .smIdle

theorem Polls.lt_state (k : ℕ) : k < p.state k := by
  induction k with
  | zero => exact p.pos
  | succ k ih =>
    have h1 := p.state_lt k
    have h2 := p.data_lt k
    omega

instance (x : ℕ × ℕ) (k : ℕ) : Decidable (NoticedAt inp p x k) :=
  decidable_of_iff (x.1 < p.state k ∧ p.state k ≤ x.1 + x.2 ∧
      (regs inp (p.state (k + 1))).updateCtrFlag = true)
    ⟨fun h ↦ ⟨h.1, h.2.1, h.2.2⟩, fun h ↦ ⟨h.lt, h.le, h.next⟩⟩

instance (x : ℕ × ℕ) : Decidable (Noticed inp p x) :=
  decidable_of_iff (∃ k, k < x.1 + x.2 ∧ NoticedAt inp p x k)
    ⟨fun ⟨k, _, h⟩ ↦ ⟨k, h⟩, fun ⟨k, h⟩ ↦ ⟨k, Nat.lt_of_lt_of_le (p.lt_state k) h.le, h⟩⟩

/-- The waits that have ended before pass `m`, with their starts and lengths. -/
def waits (m : ℕ) : List (ℕ × ℕ) := bursts (Waiting inp) (p.state m)

/-- What has been reported when pass `m` is over. -/
structure Report (m : ℕ) : Prop where
  /-- One number for each wait that has been noticed, in order, and the right one if it is read in
  time. -/
  noticed : List.Forall₂ (fun x v ↦ ReadInTime inp p x → v = shown x.2)
    ((waits inp p m).filter (Noticed inp p)) (reported inp p (m + 1))
  /-- So if all waits are noticed and all numbers read in time, these are the waits. -/
  all : (∀ x ∈ waits inp p m, Noticed inp p x ∧ ReadInTime inp p x) →
    reported inp p (m + 1) = (waits inp p m).map fun x ↦ shown x.2

end main

variable {inp : ℕ → Pins} {p : Polls} {m k t : ℕ} {x : ℕ × ℕ}

/-! ## One pass -/

theorem updateCtrFlag_succ : (regs inp (t + 1)).updateCtrFlag = true ↔ ¬ Waiting inp t := by
  show (if Waiting inp t then false else true) = true ↔ _
  simp

/-- What a pass leaves in `old_state`. -/
theorem oldState_loop (m : ℕ) :
    (loop inp p (m + 1)).oldState = if (regs inp (p.state m)).updateCtrFlag then 1 else 0 := by
  show (stateIo inp (p.state m)).setWidth 8 = _
  rw [stateIo]
  cases (regs inp (p.state m)).updateCtrFlag <;> rfl

/-- The first pass reports nothing. -/
theorem reported_one : reported inp p 1 = [] := by
  rw [reported, loop, Loop.pass, loop]
  dsimp only
  split <;> simp

/-- What a pass prints, told by `old_state` before and after it. -/
theorem printed_succ (m : ℕ) :
    (loop inp p (m + 1)).printed =
      if (loop inp p (m + 1)).oldState ≠ (loop inp p m).oldState then
        (loop inp p m).printed ++ [⟨m, (loop inp p m).oldState, (loop inp p (m + 1)).oldState,
          (dataIo inp (p.data m)).toInt⟩]
      else (loop inp p m).printed := rfl

/-- **Any other pass reports a number if it sees the flag rise.** -/
theorem reported_succ (m : ℕ) :
    reported inp p (m + 2) = reported inp p (m + 1) ++
      if (regs inp (p.state m)).updateCtrFlag = false ∧
          (regs inp (p.state (m + 1))).updateCtrFlag = true
        then [(dataIo inp (p.data (m + 1))).toInt] else [] := by
  rw [reported, printed_succ, oldState_loop (m + 1), oldState_loop m]
  cases (regs inp (p.state m)).updateCtrFlag <;>
    cases (regs inp (p.state (m + 1))).updateCtrFlag <;>
    simp [reported, List.filter_append]

/-! ## Passes and waits -/

/-- A pass sees the flag low after a cycle of a wait. -/
theorem waiting_iff_flag (k : ℕ) :
    (regs inp (p.state k)).updateCtrFlag = false ↔ Waiting inp (p.state k - 1) := by
  have hpos : p.state k - 1 + 1 = p.state k := by
    have := p.lt_state k
    omega
  rw [← Bool.not_eq_true, ← hpos, updateCtrFlag_succ, not_not, Nat.add_sub_cancel]

theorem state_mono {i j : ℕ} (h : i ≤ j) : p.state i ≤ p.state j := by
  induction j, h using Nat.le_induction with
  | base => exact Nat.le_refl _
  | succ j _ ih =>
    have h1 := p.state_lt j
    have h2 := p.data_lt j
    omega

/-- A wait that is noticed by pass `k` is over when the next pass reads the flag. -/
theorem NoticedAt.lt_next {a n : ℕ} (h : NoticedAt inp p (a, n) k)
    (hb : Burst (Waiting inp) a n) : a + n < p.state (k + 1) := by
  by_contra hge
  have hlt := h.lt
  have h1 := p.state_lt k
  have h2 := p.data_lt k
  have hw := hb.holds_at (u := p.state (k + 1) - 1) (by omega) (by omega)
  rw [← waiting_iff_flag, h.next] at hw
  exact Bool.noConfusion hw

/-- A wait that ends between two passes can be noticed by the first of them only. -/
theorem NoticedAt.eq_of_le {a n : ℕ} (h : NoticedAt inp p (a, n) k) (hb : Burst (Waiting inp) a n)
    (h1 : p.state m ≤ a + n) (h2 : a + n < p.state (m + 1)) : k = m := by
  have hle := h.le
  have hnext := h.lt_next hb
  rcases Nat.lt_trichotomy k m with hlt | rfl | hgt
  · have hmono : p.state (k + 1) ≤ p.state m := state_mono hlt
    omega
  · rfl
  · have hmono : p.state (m + 1) ≤ p.state k := state_mono hgt
    omega

/-- Whatever is noticed between two passes goes on when the first of them reads the flag. -/
theorem Noticed.at_of_le {a n : ℕ} (h : Noticed inp p (a, n)) (hb : Burst (Waiting inp) a n)
    (h1 : p.state m ≤ a + n) (h2 : a + n < p.state (m + 1)) :
    NoticedAt inp p (a, n) m ∧ a ≤ p.state m - 1 ∧ p.state m - 1 < a + n := by
  obtain ⟨k, hk⟩ := h
  obtain rfl := hk.eq_of_le hb h1 h2
  have hlt := hk.lt
  exact ⟨hk, Nat.le_sub_one_of_lt hlt, by omega⟩

/-- **If the flag rises between two passes**, the wait into which the first of them falls is
noticed, and no other. -/
theorem filter_waits_of_rise (hlow : (regs inp (p.state m)).updateCtrFlag = false)
    (hhigh : (regs inp (p.state (m + 1))).updateCtrFlag = true) :
    ∃ a n, Burst (Waiting inp) a n ∧ NoticedAt inp p (a, n) m ∧
      (waits inp p (m + 1)).filter (Noticed inp p) =
        (waits inp p m).filter (Noticed inp p) ++ [(a, n)] := by
  have hmono : p.state m ≤ p.state (m + 1) := state_mono (Nat.le_succ m)
  have hpos := p.lt_state m
  have hnot : ¬ Waiting inp (p.state (m + 1) - 1) := by
    rw [← waiting_iff_flag, hhigh]
    exact Bool.noConfusion
  obtain ⟨a, n, hb, h1, h2, h3⟩ := exists_burst ((waiting_iff_flag m).mp hlow) hnot (by omega)
  have hn : NoticedAt inp p (a, n) m := ⟨by show a < _; omega, by show _ ≤ a + n; omega, hhigh⟩
  have honly : ∀ a' n', Burst (Waiting inp) a' n' → p.state m ≤ a' + n' →
      a' + n' < p.state (m + 1) → Noticed inp p (a', n') → a' + n' = a + n := by
    intro a' n' hb' h1' h2' hC
    obtain ⟨-, hle, hlt⟩ := hC.at_of_le hb' h1' h2'
    obtain ⟨rfl, rfl⟩ := hb.eq_of_mem hb' h1 h2 hle hlt
    rfl
  have hbefore : (bursts (Waiting inp) (a + n)).filter (Noticed inp p) =
      (waits inp p m).filter (Noticed inp p) :=
    filter_bursts_eq (by omega) fun a' n' hb' h1' h2' hC ↦
      absurd (honly a' n' hb' h1' (by omega) hC) (Nat.ne_of_lt h2')
  have hafter : (waits inp p (m + 1)).filter (Noticed inp p) =
      (bursts (Waiting inp) (a + n + 1)).filter (Noticed inp p) :=
    filter_bursts_eq (by omega) fun a' n' hb' h1' h2' hC ↦
      absurd (honly a' n' hb' (by omega) h2' hC) (Nat.ne_of_gt h1')
  refine ⟨a, n, hb, hn, ?_⟩
  rw [hafter, hb.filter_bursts ⟨m, hn⟩, hbefore]

/-- **Otherwise nothing is noticed.** -/
theorem filter_waits_of_not_rise (hrise : ¬ ((regs inp (p.state m)).updateCtrFlag = false ∧
      (regs inp (p.state (m + 1))).updateCtrFlag = true)) :
    (waits inp p (m + 1)).filter (Noticed inp p) = (waits inp p m).filter (Noticed inp p) := by
  refine filter_bursts_eq (state_mono (Nat.le_succ m)) fun a n hb h1 h2 hC ↦ hrise ?_
  obtain ⟨hn, hle, hlt⟩ := hC.at_of_le hb h1 h2
  exact ⟨(waiting_iff_flag m).mpr (hb.holds_at hle hlt), hn.next⟩

/-! ## The report -/

/-- Before the first pass nothing is noticed. -/
theorem filter_waits_zero : (waits inp p 0).filter (Noticed inp p) = [] := by
  rw [List.filter_eq_nil_iff]
  rintro ⟨a, n⟩ hx hC
  obtain ⟨-, hlt⟩ := mem_bursts.mp hx
  obtain ⟨k, hk⟩ := of_decide_eq_true hC
  have hle := hk.le
  have hmono : p.state 0 ≤ p.state k := state_mono (Nat.zero_le k)
  omega

/-- A number that is read in time. -/
theorem NoticedAt.shown_eq {a n : ℕ} (h : NoticedAt inp p (a, n) k) (hb : Burst (Waiting inp) a n)
    (hin : ReadInTime inp p (a, n)) : (dataIo inp (p.data (k + 1))).toInt = shown n := by
  have h1 := h.lt_next hb
  have h2 := p.state_lt (k + 1)
  rw [dataIo, waitCtr_of_burst hb (by omega) (hin k h), shown]

/-- **The waits that are noticed are reported**, once each and in order. -/
theorem forall₂_reported (m : ℕ) :
    List.Forall₂ (fun x v ↦ ReadInTime inp p x → v = shown x.2)
      ((waits inp p m).filter (Noticed inp p)) (reported inp p (m + 1)) := by
  induction m with
  | zero =>
    rw [filter_waits_zero, reported_one]
    exact .nil
  | succ m ih =>
    rw [reported_succ]
    split
    · next hrise =>
      obtain ⟨a, n, hb, hn, hfilter⟩ := filter_waits_of_rise hrise.1 hrise.2
      rw [hfilter]
      exact List.rel_append ih (.cons (fun hin ↦ hn.shown_eq hb hin) .nil)
    · next hrise =>
      rw [filter_waits_of_not_rise hrise, List.append_nil]
      exact ih

/-- A list that agrees with another place by place is its image. -/
theorem eq_map_of_forall₂ {α β : Type*} {Q : α → Prop} {f : α → β} {l : List α} {l' : List β}
    (h : List.Forall₂ (fun x v ↦ Q x → v = f x) l l') (hQ : ∀ x ∈ l, Q x) : l' = l.map f := by
  induction h with
  | nil => rfl
  | cons hx _ ih =>
    obtain ⟨hq, hl⟩ := List.forall_mem_cons.mp hQ
    rw [List.map_cons, hx hq, ih hl]

/-- **The wait-time report**, for every interleaving of the loop with the state machine. -/
theorem report (inp : ℕ → Pins) (p : Polls) (m : ℕ) : Report inp p m where
  noticed := forall₂_reported m
  all h := by
    have hall : (waits inp p m).filter (Noticed inp p) = waits inp p m :=
      List.filter_eq_self.mpr fun x hx ↦ decide_eq_true (h x hx).1
    have hreported := @forall₂_reported inp p m
    rw [hall] at hreported
    exact eq_map_of_forall₂ hreported fun x hx ↦ (h x hx).2

/-- Passes that are 19 cycles apart. -/
def slow : Polls where
  state k := 1 + 19 * k
  data k := 2 + 19 * k
  pos := Nat.zero_lt_succ 0
  state_lt k := by omega
  data_lt k := by omega

/-- **A wait of two cycles that no pass falls into.** -/
theorem not_reported_slow :
    reported onePacket slow 2 ≠ (waits onePacket slow 1).map fun x ↦ (x.2 : ℤ) := by
  have hwait : (12, 2) ∈ waits onePacket slow 1 := by
    refine mem_bursts.mpr ⟨⟨⟨fun b hb ↦ ?_, by decide⟩, by decide, by decide⟩, by decide⟩
    obtain rfl : b = 11 := by omega
    decide
  have hnone : reported onePacket slow 2 = [] := by decide
  rw [hnone]
  intro heq
  have := List.mem_map_of_mem (f := fun x : ℕ × ℕ ↦ (x.2 : ℤ)) hwait
  rw [← heq] at this
  exact List.not_mem_nil this

end Nios
end Usb3FpgaCard
