import Mathlib.Tactic.Ring
import Usb3FpgaCard.Channels.ManyToOne

/-!
# A writer that begins with the wrong socket

Two sequences that bring the same items to every socket leave a channel in the same states
(`Represents.congr`), so what a consumer gets from a writer that does not alternate is what it would
get from one that does and writes the same items to each socket.

With two sockets, a writer that changes sockets after every block but begins with socket 1 is such a
case: the sequence that alternates is the one with the blocks exchanged in pairs, and this is what
comes out (`Represents.isPrefix_exchange`, `Represents.out_eq_exchange`).
-/

set_option autoImplicit false

namespace Channels

variable {α : Type*} {B k i j : ℕ} {dest : α → ℕ} {l W : List α}

/-! ## Pairs of blocks -/

/-- The place that place `j` changes with when blocks of `B` are exchanged in pairs. -/
def partner (B j : ℕ) : ℕ := if j / B % 2 = 0 then j + B else j - B

/-- The first `k` pairs of blocks exchanged. -/
def exchange (B : ℕ) : ℕ → List α → List α
  | 0, l => l
  | k + 1, l => (l.drop B).take B ++ (l.take B ++ exchange B k (l.drop (2 * B)))

theorem le_of_div_odd (h : ¬ j / B % 2 = 0) : B ≤ j := by
  by_contra hlt
  rw [Nat.div_eq_of_lt (Nat.lt_of_not_le hlt)] at h
  exact h rfl

/-- The partner is in the other block of the pair. -/
theorem partner_div (hB : 0 < B) (j : ℕ) : (partner B j / B + 1) % 2 = j / B % 2 := by
  rw [partner]
  split
  case isTrue h =>
    rw [Nat.add_div_right j hB]
    omega
  case isFalse h =>
    have hle := le_of_div_odd h
    have hdiv : (j - B) / B = j / B - 1 := by
      have := Nat.sub_mul_div j B 1
      rwa [Nat.mul_one] at this
    have hpos := Nat.div_pos hle hB
    rw [hdiv]
    omega

theorem partner_lt (hB : 0 < B) (hj : j < 2 * B * k) : partner B j < 2 * B * k := by
  rw [partner]
  split
  case isFalse => omega
  case isTrue h =>
    have hq : j / B < 2 * k := by
      rw [Nat.div_lt_iff_lt_mul hB]
      calc j < 2 * B * k := hj
        _ = 2 * k * B := by ring
    -- the block is not the last one
    have hnext : j / B + 1 < 2 * k := by omega
    calc j + B = B * (j / B + 1) + j % B := by
          rw [Nat.mul_succ, Nat.add_right_comm, Nat.div_add_mod]
      _ < B * (j / B + 1) + B := Nat.add_lt_add_left (Nat.mod_lt j hB) _
      _ = B * (j / B + 1 + 1) := (Nat.mul_succ _ _).symm
      _ ≤ B * (2 * k) := Nat.mul_le_mul_left B hnext
      _ = 2 * B * k := by ring

/-- Pairs of blocks at the front do not matter. -/
theorem partner_add (hB : 0 < B) (j : ℕ) : partner B (2 * B * k + j) = 2 * B * k + partner B j := by
  have hdiv : (2 * B * k + j) / B = 2 * k + j / B := by
    rw [show 2 * B * k = B * (2 * k) by ring, Nat.mul_add_div hB]
  rw [partner, partner, hdiv, Nat.mul_add_mod]
  split
  · rw [Nat.add_assoc]
  · next h => rw [Nat.add_sub_assoc (le_of_div_odd h)]

theorem length_exchange (h : 2 * B * k ≤ l.length) : (exchange B k l).length = l.length := by
  induction k generalizing l with
  | zero => rfl
  | succ k ih =>
    rw [Nat.mul_succ] at h
    rw [exchange, List.length_append, List.length_append, ih (by rw [List.length_drop]; omega),
      List.length_take, List.length_take, List.length_drop, List.length_drop]
    omega

/-- **What stands at place `j`** was at the place of its partner. -/
theorem getElem?_exchange (hB : 0 < B) (hl : 2 * B * k ≤ l.length) (hj : j < 2 * B * k) :
    (exchange B k l)[j]? = l[partner B j]? := by
  induction k generalizing l j with
  | zero => exact absurd hj (Nat.not_lt_zero j)
  | succ k ih =>
    rw [Nat.mul_succ] at hl hj
    have hsecond : ((l.drop B).take B).length = B := by
      rw [List.length_take, List.length_drop]
      omega
    have hfirst : (l.take B).length = B := by
      rw [List.length_take]
      omega
    rw [exchange]
    rcases Nat.lt_or_ge j B with hlt | hge
    · rw [List.getElem?_append_left (by rwa [hsecond]), List.getElem?_take_of_lt hlt,
        List.getElem?_drop, partner, Nat.div_eq_of_lt hlt, if_pos rfl, Nat.add_comm]
    rw [List.getElem?_append_right (by rwa [hsecond]), hsecond]
    rcases Nat.lt_or_ge (j - B) B with hlt | hge'
    · rw [List.getElem?_append_left (by rwa [hfirst]), List.getElem?_take_of_lt hlt, partner,
        if_neg]
      rw [show j = j - B + B by omega, Nat.add_div_right _ hB, Nat.div_eq_of_lt hlt]
      decide
    · obtain ⟨r, rfl⟩ : ∃ r, j = 2 * B * 1 + r := ⟨j - 2 * B, by omega⟩
      rw [List.getElem?_append_right (by rwa [hfirst]), hfirst, partner_add hB, Nat.mul_one,
        show 2 * B + r - B - B = r by omega,
        ih (by rw [List.length_drop]; omega) (by omega), List.getElem?_drop]

theorem getElem_exchange (hB : 0 < B) (hl : 2 * B * k = l.length)
    (hj : j < (exchange B k l).length) (hp : partner B j < l.length) :
    (exchange B k l)[j] = l[partner B j] := by
  have hj' : j < 2 * B * k := by rwa [length_exchange (Nat.le_of_eq hl), ← hl] at hj
  have h := getElem?_exchange hB (Nat.le_of_eq hl) hj'
  rw [List.getElem?_eq_getElem hj, List.getElem?_eq_getElem hp] at h
  exact Option.some_inj.mp h

/-! ## A writer that begins with socket 1 -/

/-- The writer changes sockets after every `B` items, starting with socket 1. -/
def AlternatesLate (B : ℕ) (dest : α → ℕ) (W : List α) : Prop :=
  ∀ j (h : j < W.length), dest W[j] = (j / B + 1) % 2

theorem AlternatesLate.alternates_exchange (h : AlternatesLate B dest W) (hB : 0 < B)
    (hW : 2 * B * k = W.length) : Alternates 2 B dest (exchange B k W) := by
  intro j hj
  have hj' : j < 2 * B * k := by rwa [length_exchange (Nat.le_of_eq hW), ← hW] at hj
  have hp := hW ▸ partner_lt hB hj'
  rw [getElem_exchange hB hW hj hp, h _ hp, partner_div hB]

/-- Parts of which one has no item of a kind can change places. -/
theorem filter_append_comm {p : α → Bool} {l l' : List α}
    (h : l.filter p = [] ∨ l'.filter p = []) :
    (l ++ l').filter p = (l' ++ l).filter p := by
  rw [List.filter_append, List.filter_append]
  rcases h with h | h <;> rw [h, List.append_nil, List.nil_append]

/-- **Every socket gets the same items** when the pairs are exchanged. -/
theorem AlternatesLate.filter_exchange (h : AlternatesLate B dest W) (hB : 0 < B)
    (hW : 2 * B * k = W.length) (i : ℕ) :
    (exchange B k W).filter (dest · = i) = W.filter (dest · = i) := by
  induction k generalizing W with
  | zero => rfl
  | succ k ih =>
    rw [Nat.mul_succ] at hW
    have hrest : AlternatesLate B dest (W.drop (2 * B)) := by
      intro j hj
      rw [List.length_drop] at hj
      rw [List.getElem_drop, h, show (2 * B + j) / B = 2 + j / B by
        rw [Nat.mul_comm, Nat.mul_add_div hB]]
      omega
    -- the first block of the pair goes to socket 1, the second to socket 0
    have hfirst : ∀ x ∈ W.take B, dest x = 1 := by
      intro x hx
      obtain ⟨j, hj, rfl⟩ := List.getElem_of_mem hx
      rw [List.length_take] at hj
      rw [List.getElem_take, h, Nat.div_eq_of_lt (by omega)]
    have hsecond : ∀ x ∈ (W.drop B).take B, dest x = 0 := by
      intro x hx
      obtain ⟨j, hj, rfl⟩ := List.getElem_of_mem hx
      rw [List.length_take, List.length_drop] at hj
      rw [List.getElem_take, List.getElem_drop, h, Nat.add_div_left _ hB,
        Nat.div_eq_of_lt (by omega)]
    have hcomm : ((W.drop B).take B ++ W.take B).filter (dest · = i) =
        (W.take B ++ (W.drop B).take B).filter (dest · = i) := by
      refine filter_append_comm ?_
      by_cases hi : i = 0
      · refine .inr (List.filter_eq_nil_iff.mpr fun x hx ↦ ?_)
        simp [hfirst x hx, hi]
      · refine .inl (List.filter_eq_nil_iff.mpr fun x hx ↦ ?_)
        simp [hsecond x hx, Ne.symm hi]
    have hsplit : W = W.take B ++ (W.drop B).take B ++ W.drop (2 * B) := by
      rw [List.append_assoc, show 2 * B = B + B by omega, ← List.drop_drop,
        List.take_append_drop, List.take_append_drop]
    calc (exchange B (k + 1) W).filter (dest · = i)
        = ((W.drop B).take B ++ W.take B).filter (dest · = i) ++
            (exchange B k (W.drop (2 * B))).filter (dest · = i) := by
          rw [exchange, ← List.append_assoc, List.filter_append]
      _ = (W.take B ++ (W.drop B).take B).filter (dest · = i) ++
            (W.drop (2 * B)).filter (dest · = i) := by
          rw [hcomm, ih hrest (by rw [List.length_drop]; omega)]
      _ = W.filter (dest · = i) := by
          rw [← List.filter_append, ← hsplit]

namespace ManyToOne

variable {n : ℕ} {s : ManyToOne α} {W' : List α}

/-- **Only what each socket gets matters.** -/
theorem Represents.congr (h : s.Represents n B dest W)
    (hW : ∀ i, W.filter (dest · = i) = W'.filter (dest · = i)) : s.Represents n B dest W' where
  conserve i := (h.conserve i).trans (hW i)
  length := h.length
  turns := h.turns

/-- At any moment the consumer has a beginning of any sequence that alternates and that brings every
socket at least what has been written to it. -/
theorem Represents.isPrefix_of (h : s.Represents n B dest W) (ha : Alternates n B dest W')
    (hW : ∀ i, (W.filter (dest · = i)).IsPrefix (W'.filter (dest · = i))) : s.out.IsPrefix W' :=
  isPrefix_of_filter (fun j hx hy ↦ (h.turns j hx).trans (ha j hy).symm) fun i ↦
    List.IsPrefix.trans ⟨s.queue i, h.conserve i⟩ (hW i)

/-- **A writer that begins with socket 1** is read with the blocks exchanged in pairs, at every
moment, ... -/
theorem Represents.isPrefix_exchange (h : s.Represents 2 B dest W) (hB : 0 < B)
    (hWW' : W.IsPrefix W') (ha : AlternatesLate B dest W') (hW' : 2 * B * k = W'.length) :
    s.out.IsPrefix (exchange B k W') := by
  refine h.isPrefix_of (ha.alternates_exchange hB hW') fun i ↦ ?_
  rw [ha.filter_exchange hB hW']
  obtain ⟨rest, rfl⟩ := hWW'
  rw [List.filter_append]
  exact List.prefix_append _ _

/-- ... and completely, when no more can be forwarded. -/
theorem Represents.out_eq_exchange (h : s.Represents 2 B dest W) (hB : 0 < B)
    (ha : AlternatesLate B dest W) (hW : 2 * B * k = W.length) (hs : ¬ s.Ready 2 B) :
    s.out = exchange B k W := by
  have h' := h.congr fun i ↦ (ha.filter_exchange hB hW i).symm
  refine (h'.out_eq_iff ?_ hs).mpr (ha.alternates_exchange hB hW)
  rw [length_exchange (Nat.le_of_eq hW), ← hW, show 2 * B * k = B * (2 * k) by ring]
  exact Nat.dvd_mul_right _ _

end ManyToOne

end Channels
