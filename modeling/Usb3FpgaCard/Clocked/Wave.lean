import Mathlib.Algebra.Group.Nat.Defs
import Mathlib.Data.Nat.Notation
import Mathlib.Tactic.ByContra
import Mathlib.Order.Basic

/-!
# Signals over time

A signal that is either active or not in each cycle is a predicate on cycle numbers.  This file has
the vocabulary for such waves: where one rises, its bursts (maximal runs of active cycles), values
that stay put while nothing writes them, shift registers, and counters that keep a wave active
until they reach zero.  Nothing here knows which circuit the waves come from.
-/

set_option autoImplicit false

namespace Clocked

variable {P : ℕ → Prop}

/-! ## Rising edges -/

/-- `P` is active in cycle `a` and was not in the cycle before. -/
structure Rises (P : ℕ → Prop) (a : ℕ) : Prop where
  /-- Active in cycle `a`. -/
  holds : P a
  /-- Not active in the cycle before, if there is one. -/
  before : ∀ b, b + 1 = a → ¬ P b

/-- A wave does not rise strictly inside an active stretch. -/
theorem Rises.le_of_holds {a b t : ℕ} (h : Rises P a) (hat : a ≤ t)
    (hall : ∀ u, b ≤ u → u ≤ t → P u) : a ≤ b := by
  by_contra hlt
  exact h.before (a - 1) (by omega) (hall (a - 1) (by omega) (by omega))

/-- **Every active stretch has a first cycle.**  If `P` is active in cycle `t` and was not in some
earlier cycle `s`, it rose somewhere after `s` and has been active since. -/
theorem exists_rises {s t : ℕ} (hs : ¬ P s) (ht : P t) (hst : s ≤ t) :
    ∃ a, s < a ∧ a ≤ t ∧ Rises P a ∧ ∀ u, a ≤ u → u ≤ t → P u := by
  induction t with
  | zero =>
    obtain rfl : s = 0 := by omega
    exact absurd ht hs
  | succ t ih =>
    have hne : s ≠ t + 1 := fun h ↦ hs (h ▸ ht)
    by_cases hp : P t
    · obtain ⟨a, hsa, hat, hr, hall⟩ := ih hp (by omega)
      refine ⟨a, hsa, by omega, hr, fun u hau hut ↦ ?_⟩
      rcases Nat.lt_or_ge t u with h | h
      · obtain rfl : u = t + 1 := by omega
        exact ht
      · exact hall u hau h
    · refine ⟨t + 1, by omega, Nat.le_refl _, ⟨ht, fun b hb ↦ ?_⟩, fun u h1 h2 ↦ ?_⟩
      · obtain rfl : b = t := by omega
        exact hp
      · obtain rfl : u = t + 1 := by omega
        exact ht

/-- A wave that is not active in cycle 0 has a last cycle before each active stretch. -/
theorem exists_enters {t : ℕ} (h0 : ¬ P 0) (ht : P t) :
    ∃ c, c + 1 ≤ t ∧ ¬ P c ∧ Rises P (c + 1) ∧ ∀ u, c + 1 ≤ u → u ≤ t → P u := by
  obtain ⟨a, ha, hat, hr, hall⟩ := exists_rises h0 ht (Nat.zero_le t)
  obtain ⟨c, rfl⟩ : ∃ c, a = c + 1 := ⟨a - 1, by omega⟩
  exact ⟨c, hat, hr.before c rfl, hr, hall⟩

/-- **An active stretch lasts forever or has a last cycle.** -/
theorem forever_or_leaves {s : ℕ} (hs : P s) :
    (∀ u, s ≤ u → P u) ∨ ∃ l, s ≤ l ∧ (∀ u, s ≤ u → u ≤ l → P u) ∧ ¬ P (l + 1) := by
  rw [or_iff_not_imp_right]
  intro hno u hsu
  have hall : ∀ n, ∀ v, s ≤ v → v ≤ s + n → P v := by
    intro n
    induction n with
    | zero => exact fun v h1 h2 ↦ (show v = s by omega) ▸ hs
    | succ n ih =>
      intro v h1 h2
      rcases Nat.lt_or_ge v (s + (n + 1)) with hlt | hge
      · exact ih v h1 (by omega)
      · obtain rfl : v = s + n + 1 := by omega
        exact by_contra fun hp ↦ hno ⟨s + n, by omega, fun w hw hw' ↦ ih w hw hw', hp⟩
  exact hall (u - s) u hsu (by omega)

/-! ## Bursts -/

/-- The first `n` cycles of a burst from cycle `a`, which may go on. -/
structure Stretch (P : ℕ → Prop) (a n : ℕ) : Prop where
  /-- The cycle before the burst is not active. -/
  before : ∀ b, b + 1 = a → ¬ P b
  /-- The cycles of the burst are. -/
  holds : ∀ i, i < n → P (a + i)

theorem Stretch.mono {a n m : ℕ} (h : Stretch P a n) (hmn : m ≤ n) : Stretch P a m :=
  ⟨h.before, fun i hi ↦ h.holds i (by omega)⟩

theorem Stretch.holds_at {a n u : ℕ} (h : Stretch P a n) (hau : a ≤ u) (hun : u < a + n) : P u := by
  have := h.holds (u - a) (by omega)
  rwa [Nat.add_sub_cancel' hau] at this

/-- A burst of `n` cycles from cycle `a`: a maximal run of cycles in which `P` is active. -/
structure Burst (P : ℕ → Prop) (a n : ℕ) : Prop extends Stretch P a n where
  /-- The burst has at least one cycle. -/
  pos : 0 < n
  /-- The cycle after it is not active. -/
  after : ¬ P (a + n)

namespace Burst

variable {a b n m : ℕ}

theorem rises (h : Burst P a n) : Rises P a := ⟨h.holds 0 h.pos, h.before⟩

/-- Two bursts with one start have one length. -/
theorem length_unique (h : Burst P a n) (h' : Burst P a m) : n = m := by
  rcases Nat.lt_trichotomy n m with hlt | rfl | hlt
  · exact absurd (h'.holds n hlt) h.after
  · rfl
  · exact absurd (h.holds m hlt) h'.after

/-- **Bursts do not overlap.**  Two bursts of one wave with a common cycle are the same. -/
theorem eq_of_mem (h : Burst P a n) (h' : Burst P b m) {u : ℕ} (hau : a ≤ u) (hun : u < a + n)
    (hbu : b ≤ u) (hum : u < b + m) : a = b ∧ n = m := by
  have hab : a ≤ b := h.rises.le_of_holds hau fun v h1 h2 ↦ h'.holds_at h1 (by omega)
  have hba : b ≤ a := h'.rises.le_of_holds hbu fun v h1 h2 ↦ h.holds_at h1 (by omega)
  obtain rfl := Nat.le_antisymm hab hba
  exact ⟨rfl, h.length_unique h'⟩

end Burst

/-! ## Values that stay put -/

/-- A value no edge between two cycles changes is the same in both. -/
theorem eq_of_stable {α : Type*} {f : ℕ → α} {s t : ℕ} (hst : s ≤ t)
    (h : ∀ u, s ≤ u → u < t → f (u + 1) = f u) : f t = f s := by
  induction t with
  | zero => rw [Nat.le_zero.mp hst]
  | succ t ih =>
    rcases Nat.eq_or_lt_of_le hst with rfl | hlt
    · rfl
    · rw [h t (by omega) (by omega), ih (by omega) fun u h1 h2 ↦ h u h1 (by omega)]

/-! ## Shift registers -/

/-- **The shift register rule.**  When `n` places are shifted down at every edge and `b` comes in
at the top, place `i` has held what came in at the last `n` edges, the oldest at the bottom. -/
theorem shifted {α : Type*} {n : ℕ} {c : ℕ → ℕ → α} {b : ℕ → α}
    (htop : ∀ e i, i + 1 = n → c (e + 1) i = b e)
    (hshift : ∀ e i, i + 1 < n → c (e + 1) i = c e (i + 1)) (e : ℕ) {i : ℕ} (hi : i < n) :
    c (e + n) i = b (e + i) := by
  -- what came in `m + 1` edges ago has moved down `m` places
  have hmove : ∀ m e i, i + m + 1 = n → c (e + m + 1) i = b e := by
    intro m
    induction m with
    | zero => exact fun e i hi ↦ htop e i hi
    | succ m ih =>
      intro e i hi
      rw [hshift _ i (by omega)]
      exact ih e (i + 1) (by omega)
  have h := hmove (n - 1 - i) (e + i) i (by omega)
  rwa [show e + i + (n - 1 - i) + 1 = e + n by omega] at h

/-! ## Counters that hold a wave -/

theorem toNat_sub_one {w : ℕ} {x : BitVec w} (h : x ≠ 0#w) : (x - 1#w).toNat + 1 = x.toNat := by
  have hx : x.toNat ≠ 0 := fun h0 ↦ h (BitVec.eq_of_toNat_eq (by simpa using h0))
  have hw : 0 < w := by
    rcases Nat.eq_zero_or_pos w with rfl | hw
    · exact absurd (BitVec.eq_nil x) (by simpa using h)
    · exact hw
  have h1 : (1#w).toNat = 1 := by simp [hw]
  have hle : 1#w ≤ x := by rw [BitVec.le_def, h1]; omega
  rw [BitVec.toNat_sub_of_le hle, h1]
  omega

theorem bitVec_pos_iff {w : ℕ} {x : BitVec w} : x > 0#w ↔ x ≠ 0#w := by
  rw [gt_iff_lt, BitVec.lt_def, ne_eq, ← BitVec.toNat_inj, BitVec.toNat_zero]
  exact Nat.pos_iff_ne_zero

/-- **The countdown rule.**  If a non-zero counter keeps `P` active and steps down by one in every
active cycle, then `P` is active for as many further cycles as the counter says, and the counter
tells how many are left. -/
theorem countdown {w : ℕ} {c : ℕ → BitVec w}
    (hstep : ∀ t, P t → c t ≠ 0#w → P (t + 1) ∧ c (t + 1) = c t - 1#w) {a : ℕ} (ha : P a) :
    ∀ i, i ≤ (c a).toNat → P (a + i) ∧ (c (a + i)).toNat + i = (c a).toNat := by
  intro i hi
  induction i with
  | zero => exact ⟨ha, rfl⟩
  | succ i ih =>
    obtain ⟨hp, hc⟩ := ih (by omega)
    have hne : c (a + i) ≠ 0#w := fun h ↦ by
      rw [h, BitVec.toNat_zero] at hc
      omega
    obtain ⟨hp', hc'⟩ := hstep (a + i) hp hne
    have := toNat_sub_one hne
    rw [← Nat.add_assoc, hc']
    exact ⟨hp', by omega⟩

end Clocked
