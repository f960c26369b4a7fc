import Mathlib.Algebra.BigOperators.Group.Finset.Basic
import Mathlib.Algebra.GroupWithZero.Nat
import Mathlib.Data.Nat.Count
import Usb3FpgaCard.Clocked.Wave

/-!
# Counting active cycles

How many cycles a wave has been active is `Nat.count`.  This file sorts these cycles in two ways, by
burst and by a key, and says what a counter makes of them.

* `bursts P t` is the log of the bursts whose end has been seen before cycle `t`
  (`mem_bursts`), and `activeFor P t` the length of the one that has not ended yet.  Together they
  are all active cycles (`count_eq_sum_bursts`), and there are as many bursts as falling edges
  (`length_bursts`).
* `count_eq_sum_keys` sorts the active cycles by any key they have.
* A register that is incremented in the active cycles and otherwise kept counts them up to overflow
  (`counts`).
-/

set_option autoImplicit false

namespace Clocked

variable (P : ℕ → Prop) [DecidablePred P]

instance (a : ℕ) : Decidable (Rises P a) :=
  decidable_of_iff (P a ∧ ¬ (0 < a ∧ P (a - 1)))
    ⟨fun h ↦ ⟨h.1, fun b hb hp ↦ h.2 (by subst hb; exact ⟨Nat.succ_pos b, hp⟩)⟩,
      fun h ↦ ⟨h.holds, fun hn ↦ h.before (a - 1) (Nat.sub_add_cancel hn.1) hn.2⟩⟩

/-! ## The log of bursts -/

/-- For how many cycles `P` has been active when cycle `t` begins. -/
def activeFor : ℕ → ℕ
  | 0 => 0
  | t + 1 => if P t then activeFor t + 1 else 0

/-- Cycle `t` is the first after a burst. -/
def Falls (t : ℕ) : Prop := ¬ P t ∧ activeFor P t ≠ 0

instance : DecidablePred (Falls P) := fun _ ↦ inferInstanceAs (Decidable (_ ∧ _))

/-- The bursts that have ended before cycle `t`, the first first, with their starts and lengths. -/
def bursts : ℕ → List (ℕ × ℕ)
  | 0 => []
  | t + 1 =>
    if Falls P t then bursts t ++ [(t - activeFor P t, activeFor P t)] else bursts t

variable {P} {t : ℕ}

theorem activeFor_of_holds (h : P t) : activeFor P (t + 1) = activeFor P t + 1 := if_pos h

theorem activeFor_of_not (h : ¬ P t) : activeFor P (t + 1) = 0 := if_neg h

theorem activeFor_le (t : ℕ) : activeFor P t ≤ t := by
  induction t with
  | zero => exact Nat.le_refl 0
  | succ t ih =>
    rw [activeFor]
    split <;> omega

theorem activeFor_ne_zero_iff : activeFor P (t + 1) ≠ 0 ↔ P t := by
  by_cases h : P t
  · rw [activeFor_of_holds h]
    exact iff_of_true (Nat.succ_ne_zero _) h
  · rw [activeFor_of_not h]
    exact iff_of_false (fun hne ↦ hne rfl) h

/-- The active cycles that come last are the beginning of a burst. -/
theorem stretch_activeFor (t : ℕ) : Stretch P (t - activeFor P t) (activeFor P t) := by
  induction t with
  | zero =>
    exact ⟨fun _ hb ↦ absurd hb (Nat.succ_ne_zero _), fun _ hi ↦ absurd hi (Nat.not_lt_zero _)⟩
  | succ t ih =>
    by_cases h : P t
    · have hle := activeFor_le (P := P) t
      rw [activeFor_of_holds h, Nat.add_sub_add_right]
      refine ⟨ih.before, fun i hi ↦ ?_⟩
      rcases Nat.eq_or_lt_of_le (Nat.le_of_lt_succ hi) with rfl | hlt
      · rwa [Nat.sub_add_cancel hle]
      · exact ih.holds i hlt
    · rw [activeFor_of_not h]
      refine ⟨fun b hb ↦ ?_, fun _ hi ↦ absurd hi (Nat.not_lt_zero _)⟩
      obtain rfl : b = t := by omega
      exact h

theorem Stretch.activeFor_eq {a n : ℕ} (h : Stretch P a n) : activeFor P (a + n) = n := by
  induction n with
  | zero =>
    cases a with
    | zero => rfl
    | succ a => exact activeFor_of_not (h.before a rfl)
  | succ n ih =>
    rw [← Nat.add_assoc, activeFor_of_holds (h.holds n (Nat.lt_succ_self n)),
      ih (h.mono (Nat.le_succ n))]

theorem Falls.burst (h : Falls P t) : Burst P (t - activeFor P t) (activeFor P t) where
  toStretch := stretch_activeFor t
  pos := Nat.pos_of_ne_zero h.2
  after := by
    rw [Nat.sub_add_cancel (activeFor_le t)]
    exact h.1

theorem Burst.falls {a n : ℕ} (h : Burst P a n) : Falls P (a + n) :=
  ⟨h.after, by rw [h.toStretch.activeFor_eq]; exact Nat.ne_of_gt h.pos⟩

/-- **What is in the log**: the bursts that have ended. -/
theorem mem_bursts {a n : ℕ} : (a, n) ∈ bursts P t ↔ Burst P a n ∧ a + n < t := by
  induction t with
  | zero => simp [bursts]
  | succ t ih =>
    have hlast : Burst P a n ∧ a + n = t ↔
        Falls P t ∧ (a, n) = (t - activeFor P t, activeFor P t) := by
      constructor
      · rintro ⟨h, rfl⟩
        refine ⟨h.falls, ?_⟩
        rw [h.toStretch.activeFor_eq, Nat.add_sub_cancel]
      · rintro ⟨h, heq⟩
        cases heq
        exact ⟨h.burst, Nat.sub_add_cancel (activeFor_le t)⟩
    rw [Nat.lt_succ_iff_lt_or_eq, and_or_left, hlast, ← ih, bursts]
    split
    · next h => rw [List.mem_append, List.mem_singleton, and_iff_right h]
    · next h => rw [or_iff_left fun hn ↦ h hn.1]

/-- An active cycle belongs to a burst, which has ended when the wave is seen to be inactive. -/
theorem exists_burst {u v : ℕ} (hu : P u) (hv : ¬ P v) (huv : u ≤ v) :
    ∃ a n, Burst P a n ∧ a ≤ u ∧ u < a + n ∧ a + n ≤ v := by
  rcases forever_or_leaves hu with hall | ⟨l, hul, hall, hl⟩
  · exact absurd (hall v huv) hv
  have hf : Falls P (l + 1) := ⟨hl, activeFor_ne_zero_iff.mpr (hall l hul (Nat.le_refl l))⟩
  have hend := Nat.sub_add_cancel (activeFor_le (P := P) (l + 1))
  have hpos := hf.burst.pos
  refine ⟨_, _, hf.burst, ?_, by omega, ?_⟩
  · exact hf.burst.rises.le_of_holds (by omega) hall
  · by_contra hlt
    exact hv (hall v huv (by omega))

/-- As long as no burst ends, the log stays as it is. -/
theorem bursts_eq_of_not_falls {u : ℕ} (htu : t ≤ u) (h : ∀ v, t ≤ v → v < u → ¬ Falls P v) :
    bursts P u = bursts P t :=
  eq_of_stable htu fun v h1 h2 ↦ if_neg (h v h1 h2)

/-- A burst that has just ended is the last in the log. -/
theorem Burst.bursts_succ {a n : ℕ} (h : Burst P a n) :
    bursts P (a + n + 1) = bursts P a ++ [(a, n)] := by
  rw [bursts, if_pos h.falls, h.toStretch.activeFor_eq, Nat.add_sub_cancel,
    bursts_eq_of_not_falls (Nat.le_add_right a n) fun v h1 h2 hf ↦ hf.1 (h.holds_at h1 h2)]

/-! ### Some of the bursts -/

section filter

variable {C : ℕ × ℕ → Prop} [DecidablePred C]

/-- As long as no burst of this kind ends, none is added. -/
theorem filter_bursts_eq {u : ℕ} (htu : t ≤ u)
    (h : ∀ a n, Burst P a n → t ≤ a + n → a + n < u → ¬ C (a, n)) :
    (bursts P u).filter C = (bursts P t).filter C := by
  refine eq_of_stable (f := fun v ↦ (bursts P v).filter C) htu fun v h1 h2 ↦ ?_
  show (bursts P (v + 1)).filter C = (bursts P v).filter C
  rw [bursts]
  split
  · next hf =>
    have hend := Nat.sub_add_cancel (activeFor_le (P := P) v)
    have hC := h _ _ hf.burst (by omega) (by omega)
    rw [List.filter_append, List.filter_singleton, decide_eq_false hC]
    exact List.append_nil _
  · rfl

/-- A burst of this kind ends. -/
theorem Burst.filter_bursts {a n : ℕ} (h : Burst P a n) (hC : C (a, n)) :
    (bursts P (a + n + 1)).filter C = (bursts P (a + n)).filter C ++ [(a, n)] := by
  rw [bursts, if_pos h.falls, h.toStretch.activeFor_eq, Nat.add_sub_cancel, List.filter_append,
    List.filter_singleton, decide_eq_true hC]
  rfl

end filter

/-! ### All of them -/

/-- **Every active cycle belongs to a burst** that is in the log or has not ended. -/
theorem count_eq_sum_bursts (t : ℕ) :
    Nat.count P t = ((bursts P t).map Prod.snd).sum + activeFor P t := by
  induction t with
  | zero => rfl
  | succ t ih =>
    rw [Nat.count_succ, ih, bursts]
    by_cases h : P t
    · rw [if_pos h, if_neg fun hf ↦ hf.1 h, activeFor_of_holds h, Nat.add_assoc]
    · rw [if_neg h, activeFor_of_not h]
      by_cases h0 : activeFor P t = 0
      · rw [if_neg fun hf ↦ hf.2 h0, h0]
      · rw [if_pos ⟨h, h0⟩, List.map_append, List.sum_append]
        simp

/-- **There are as many bursts as falling edges.** -/
theorem length_bursts (t : ℕ) : (bursts P t).length = Nat.count (Falls P) t := by
  induction t with
  | zero => rfl
  | succ t ih =>
    rw [Nat.count_succ, bursts, ← ih]
    split
    · rw [List.length_append, List.length_singleton]
    · rfl

/-! ## Sorting by a key -/

/-- **The active cycles sorted by a key.** -/
theorem count_eq_sum_keys {key : ℕ → ℕ} {keys : Finset ℕ} (h : ∀ v, v < t → P v → key v ∈ keys) :
    Nat.count P t = ∑ k ∈ keys, Nat.count (fun v ↦ P v ∧ key v = k) t := by
  have hmaps : ((Finset.range t).filter P : Set ℕ).MapsTo key keys := by
    intro v hv
    obtain ⟨hvt, hp⟩ := Finset.mem_filter.mp hv
    exact h v (Finset.mem_range.mp hvt) hp
  rw [Nat.count_eq_card_filter_range, Finset.card_eq_sum_card_fiberwise hmaps]
  refine Finset.sum_congr rfl fun k _ ↦ ?_
  rw [Nat.count_eq_card_filter_range, Finset.filter_filter]

/-! ## Counters -/

/-- **The counter rule.**  A register that steps up by one in the active cycles and is kept in the
others counts the active cycles from any cycle `s` on, up to overflow. -/
theorem counts {w : ℕ} {c : ℕ → BitVec w} {s n : ℕ}
    (hstep : ∀ i, i < n → c (s + i + 1) = if P (s + i) then c (s + i) + 1 else c (s + i)) :
    c (s + n) = c s + BitVec.ofNat w (Nat.count (fun i ↦ P (s + i)) n) := by
  induction n with
  | zero => simp
  | succ n ih =>
    rw [← Nat.add_assoc, hstep n (Nat.lt_succ_self n),
      ih fun i hi ↦ hstep i (Nat.lt_succ_of_lt hi), Nat.count_succ]
    split
    · rw [BitVec.ofNat_add, BitVec.add_assoc]
      rfl
    · rfl

/-- Such a register, cleared in cycle 0. -/
theorem counts_from_zero {w : ℕ} {c : ℕ → BitVec w} (h0 : c 0 = 0)
    (hstep : ∀ u, c (u + 1) = if P u then c u + 1 else c u) (t : ℕ) :
    c t = BitVec.ofNat w (Nat.count P t) := by
  have h := counts (P := P) (c := c) (s := 0) (n := t) fun i _ ↦ by rw [Nat.zero_add]; exact hstep i
  simpa [h0] using h

/-- Sums that agree term by term agree up to overflow. -/
theorem ofNat_sum_congr {α : Type*} {w : ℕ} {l : List α} {f g : α → ℕ}
    (h : ∀ x ∈ l, BitVec.ofNat w (f x) = BitVec.ofNat w (g x)) :
    BitVec.ofNat w (l.map f).sum = BitVec.ofNat w (l.map g).sum := by
  induction l with
  | nil => rfl
  | cons x l ih =>
    obtain ⟨hx, hl⟩ := List.forall_mem_cons.mp h
    rw [List.map_cons, List.map_cons, List.sum_cons, List.sum_cons, BitVec.ofNat_add,
      BitVec.ofNat_add, hx, ih hl]

end Clocked
