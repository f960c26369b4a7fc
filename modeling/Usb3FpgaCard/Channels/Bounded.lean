import Mathlib.Data.Nat.Count
import Usb3FpgaCard.Channels.ManyToOne

/-!
# Channels with finite sockets

A socket that holds at most `cap` items loses what is written to it when it is full.  As long as
there is room for everything, the channel is the one without a bound (`offer_eq_accept`); and what
has been lost is missed for ever, since the state of a channel tells how much it has been given
(`Represents.length_unique`), whatever has been forwarded.

`taken` counts the blocks of one socket that some attempts to forward have taken, and
`Represents.length_queue` what is left in a socket of all that was written to it.
-/

set_option autoImplicit false

namespace Channels
namespace ManyToOne

variable {α : Type*} {n B cap k i : ℕ} {dest : α → ℕ} {s : ManyToOne α} {W W' : List α} {x : α}
  {o : Option α}

/-- At most one item is written, and lost if its socket is full. -/
def offer (dest : α → ℕ) (cap : ℕ) (s : ManyToOne α) : Option α → ManyToOne α
  | none => s
  | some x => if (s.queue (dest x)).length < cap then s.write dest x else s

/-- With room for the item nothing is lost. -/
theorem offer_eq_accept (h : ∀ x, o = some x → (s.queue (dest x)).length < cap) :
    s.offer dest cap o = s.accept dest o := by
  cases o with
  | none => rfl
  | some x => exact if_pos (h x rfl)

theorem offer_of_full (h : ¬ (s.queue (dest x)).length < cap) : s.offer dest cap (some x) = s :=
  if_neg h

theorem length_queue_offer (h : (s.queue (dest x)).length < cap) (i : ℕ) :
    ((s.offer dest cap (some x)).queue i).length =
      (s.queue i).length + if dest x = i then 1 else 0 := by
  rw [offer, if_pos h]
  split
  case isTrue hi =>
    subst hi
    rw [write_queue_self, List.length_append, List.length_singleton]
  case isFalse hi => rw [write_queue_of_ne (Ne.symm hi), Nat.add_zero]

/-- **What is lost stays lost**: a channel that has been given less is never in the same state. -/
theorem Represents.length_unique (h : s.Represents n B dest W) (h' : s.Represents n B dest W') :
    W.length = W'.length := by
  have hcount : ∀ (l : List α) (i : ℕ), (l.map dest).count i = (l.filter (dest · = i)).length := by
    intro l i
    rw [List.count, List.countP_map, List.countP_eq_length_filter]
    rfl
  have hperm : (W.map dest).Perm (W'.map dest) := by
    refine List.perm_iff_count.mpr fun i ↦ ?_
    rw [hcount, hcount, ← h.conserve i, ← h'.conserve i]
  simpa using hperm.length_eq

/-- What is offered, if there is room for it. -/
theorem Represents.offer (h : s.Represents n B dest W) (hroom : (s.queue (dest x)).length < cap) :
    (s.offer dest cap (some x)).Represents n B dest (W ++ [x]) := by
  rw [ManyToOne.offer, if_pos hroom]
  exact h.write

/-! ## Blocks taken -/

/-- The number of blocks that `k` attempts to forward take from socket `i`. -/
def taken (n B : ℕ) (s : ManyToOne α) (k i : ℕ) : ℕ :=
  ((s.queue i).length - (((forward n B)^[k] s).queue i).length) / B

theorem length_forward (n B : ℕ) (s : ManyToOne α) (i : ℕ) :
    ∃ m, ((s.forward n B).queue i).length + B * m = (s.queue i).length := by
  by_cases hready : s.Ready n B
  · by_cases hi : i = s.sent % n
    · subst hi
      refine ⟨1, ?_⟩
      rw [forward_queue_self hready, List.length_drop, Nat.mul_one]
      exact Nat.sub_add_cancel hready
    · exact ⟨0, by rw [forward_queue_of_ne hi, Nat.mul_zero, Nat.add_zero]⟩
  · exact ⟨0, by rw [forward_of_not_ready hready, Nat.mul_zero, Nat.add_zero]⟩

/-- **Only whole blocks are taken.** -/
theorem length_forward_iterate (hB : 0 < B) (s : ManyToOne α) (k i : ℕ) :
    (((forward n B)^[k] s).queue i).length + B * taken n B s k i = (s.queue i).length := by
  have hex : ∃ m, (((forward n B)^[k] s).queue i).length + B * m = (s.queue i).length := by
    induction k with
    | zero => exact ⟨0, rfl⟩
    | succ k ih =>
      obtain ⟨m, hm⟩ := ih
      obtain ⟨m', hm'⟩ := length_forward n B ((forward n B)^[k] s) i
      refine ⟨m' + m, ?_⟩
      rw [Function.iterate_succ_apply', Nat.mul_add, ← Nat.add_assoc, hm', hm]
  obtain ⟨m, hm⟩ := hex
  rw [taken, ← hm, Nat.add_sub_cancel_left, Nat.mul_div_cancel_left m hB]

/-! ## What is left -/

/-- How much a list that changes sockets after every block has for each. -/
theorem length_filter_of_alternates (h : Alternates n B dest W) (i : ℕ) :
    (W.filter (dest · = i)).length = Nat.count (fun j ↦ j / B % n = i) W.length := by
  induction W using List.reverseRecOn with
  | nil => rfl
  | append_singleton W x ih =>
    obtain ⟨hW, hx⟩ := alternates_concat.mp h
    rw [List.filter_append, List.length_append, ih hW, List.length_append, List.length_singleton,
      Nat.count_succ, ← hx]
    by_cases hi : dest x = i
    · rw [List.filter_cons_of_pos (by simp [hi]), if_pos hi]
      rfl
    · rw [List.filter_cons_of_neg (by simp [hi]), if_neg hi]
      rfl

/-- **What has been written to a socket is in it or has come out in its turns.** -/
theorem Represents.length_queue (h : s.Represents n B dest W) (i : ℕ) :
    Nat.count (fun j ↦ j / B % n = i) (B * s.sent) + (s.queue i).length =
      (W.filter (dest · = i)).length := by
  rw [← h.conserve i, List.length_append, length_filter_of_alternates h.turns, h.length,
    Nat.mul_comm]

end ManyToOne
end Channels
