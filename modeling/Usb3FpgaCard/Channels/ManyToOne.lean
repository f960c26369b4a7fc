import Mathlib.Algebra.BigOperators.Group.Finset.Basic
import Mathlib.Algebra.Order.BigOperators.Group.Finset
import Mathlib.Data.List.Basic

/-!
# Many-to-one channels

Items are written to `n` sockets, and one consumer takes them in blocks of `B`, from the sockets in
turn: a block from socket 0, one from socket 1, and so on, round and round, waiting for the socket
whose turn it is.  When writes and forwards happen, relative to each other, is not determined.

`Represents` is the invariant: what has come out and what is queued for a socket are together what
was written to it, and the items that came out were written to the sockets in turn.  So the
consumer sees what was written in the order it was written exactly if the writer itself changes
sockets after every block, starting with socket 0 (`Represents.out_eq_iff`).
-/

set_option autoImplicit false

namespace Channels

/-- The state of a channel: a queue for each socket, the number of blocks forwarded, and what the
consumer has been given. -/
structure ManyToOne (α : Type*) where
  /-- What waits in each socket, the oldest item first. -/
  queue : ℕ → List α
  /-- The number of blocks forwarded. -/
  sent : ℕ
  /-- What the consumer has. -/
  out : List α

variable {α : Type*} (n B : ℕ) (dest : α → ℕ)

/-- The writer changes sockets after every `B` items, starting with socket 0. -/
def Alternates (W : List α) : Prop :=
  ∀ j (h : j < W.length), dest W[j] = j / B % n

variable {n B dest}

theorem alternates_nil : Alternates n B dest [] := fun j h ↦ absurd h (Nat.not_lt_zero j)

theorem alternates_append {W l : List α} :
    Alternates n B dest (W ++ l) ↔
      Alternates n B dest W ∧
        ∀ j (h : j < l.length), dest l[j] = (W.length + j) / B % n := by
  constructor
  · intro h
    refine ⟨fun j hj ↦ ?_, fun j hj ↦ ?_⟩
    · rw [← h j (by rw [List.length_append]; omega), List.getElem_append_left hj]
    · rw [← h (W.length + j) (by rw [List.length_append]; omega),
        List.getElem_append_right (Nat.le_add_right _ _)]
      simp only [Nat.add_sub_cancel_left]
  · rintro ⟨hW, hl⟩ j hj
    rw [List.length_append] at hj
    rcases Nat.lt_or_ge j W.length with hlt | hge
    · rw [List.getElem_append_left hlt, hW j hlt]
    · rw [List.getElem_append_right hge, hl (j - W.length) (by omega), Nat.add_sub_cancel' hge]

theorem alternates_concat {W : List α} {x : α} :
    Alternates n B dest (W ++ [x]) ↔
      Alternates n B dest W ∧ dest x = W.length / B % n := by
  rw [alternates_append]
  refine and_congr_right fun _ ↦ ⟨fun h ↦ h 0 (Nat.succ_pos 0), fun h j hj ↦ ?_⟩
  obtain rfl : j = 0 := Nat.lt_one_iff.mp hj
  exact h

/-- **Merging is determined by the sockets.**  When two sequences visit the sockets in the same
order, and for each socket one sequence has the beginning of the other's items, then one sequence
is the beginning of the other. -/
theorem isPrefix_of_filter {X Y : List α}
    (hdest : ∀ j (hx : j < X.length) (hy : j < Y.length), dest X[j] = dest Y[j])
    (hfilter : ∀ i, (X.filter (dest · = i)).IsPrefix (Y.filter (dest · = i))) :
    X.IsPrefix Y := by
  induction X generalizing Y with
  | nil => exact List.nil_prefix
  | cons x X ih =>
    cases Y with
    | nil =>
      have h := hfilter (dest x)
      rw [List.filter_cons_of_pos (by simp), List.filter_nil] at h
      exact absurd h.length_le (by simp)
    | cons y Y =>
      have hxy : dest x = dest y := hdest 0 (Nat.succ_pos _) (Nat.succ_pos _)
      have hhead : x = y := by
        have h := hfilter (dest x)
        rw [List.filter_cons_of_pos (by simp), List.filter_cons_of_pos (by simp [hxy])] at h
        exact (List.cons_prefix_cons.mp h).1
      subst hhead
      rw [List.cons_prefix_cons]
      refine ⟨rfl, ih (fun j hx hy ↦ ?_) fun i ↦ ?_⟩
      · exact hdest (j + 1) (Nat.succ_lt_succ hx) (Nat.succ_lt_succ hy)
      · have h := hfilter i
        by_cases hi : dest x = i
        · rw [List.filter_cons_of_pos (by simp [hi]), List.filter_cons_of_pos (by simp [hi])] at h
          exact (List.cons_prefix_cons.mp h).2
        · rwa [List.filter_cons_of_neg (by simp [hi]), List.filter_cons_of_neg (by simp [hi])] at h

namespace ManyToOne

/-! ## Operations -/

/-- The empty channel. -/
def start : ManyToOne α where
  queue _ := []
  sent := 0
  out := []

variable (n B dest)

/-- An item is written to its socket. -/
def write (s : ManyToOne α) (x : α) : ManyToOne α :=
  { s with queue := Function.update s.queue (dest x) (s.queue (dest x) ++ [x]) }

/-- At most one item is written. -/
def accept (s : ManyToOne α) : Option α → ManyToOne α
  | none => s
  | some x => s.write dest x

/-- The socket whose turn it is has a full block. -/
def Ready (s : ManyToOne α) : Prop := B ≤ (s.queue (s.sent % n)).length

instance (s : ManyToOne α) : Decidable (s.Ready n B) := inferInstanceAs (Decidable (_ ≤ _))

/-- The consumer takes a block if it can. -/
def forward (s : ManyToOne α) : ManyToOne α :=
  if s.Ready n B then
    { queue := Function.update s.queue (s.sent % n) ((s.queue (s.sent % n)).drop B)
      sent := s.sent + 1
      out := s.out ++ (s.queue (s.sent % n)).take B }
  else s

section operations

variable {n B dest} {s : ManyToOne α} {x : α} {i : ℕ}

@[simp] theorem write_out : (s.write dest x).out = s.out := rfl

theorem write_queue_self : (s.write dest x).queue (dest x) = s.queue (dest x) ++ [x] :=
  Function.update_self _ _ _

theorem write_queue_of_ne (hi : i ≠ dest x) : (s.write dest x).queue i = s.queue i :=
  Function.update_of_ne hi _ _

theorem forward_of_not_ready (h : ¬ s.Ready n B) : s.forward n B = s := if_neg h

theorem forward_out (h : s.Ready n B) :
    (s.forward n B).out = s.out ++ (s.queue (s.sent % n)).take B := by
  rw [forward, if_pos h]

theorem forward_sent (h : s.Ready n B) : (s.forward n B).sent = s.sent + 1 := by
  rw [forward, if_pos h]

theorem forward_queue_self (h : s.Ready n B) :
    (s.forward n B).queue (s.sent % n) = (s.queue (s.sent % n)).drop B := by
  rw [forward, if_pos h]
  exact Function.update_self _ _ _

theorem forward_queue_of_ne (hi : i ≠ s.sent % n) : (s.forward n B).queue i = s.queue i := by
  rw [forward]
  split
  · exact Function.update_of_ne hi _ _
  · rfl

end operations

/-! ## The invariant -/

/-- The channel is in a state it can be in when the items `W` have been written. -/
structure Represents (s : ManyToOne α) (W : List α) : Prop where
  /-- Nothing is lost, and each socket keeps its order. -/
  conserve : ∀ i, s.out.filter (dest · = i) ++ s.queue i = W.filter (dest · = i)
  /-- The consumer has whole blocks. -/
  length : s.out.length = s.sent * B
  /-- They come from the sockets in turn. -/
  turns : Alternates n B dest s.out

variable {n B dest} {s : ManyToOne α} {W : List α} {x : α}

theorem represents_start : (start : ManyToOne α).Represents n B dest [] where
  conserve _ := rfl
  length := (Nat.zero_mul B).symm
  turns := alternates_nil

theorem Represents.write (h : s.Represents n B dest W) :
    (s.write dest x).Represents n B dest (W ++ [x]) where
  conserve i := by
    rw [write_out, List.filter_append, ← h.conserve i]
    by_cases hi : dest x = i
    · subst hi
      rw [write_queue_self, ← List.append_assoc, List.filter_cons_of_pos (by simp),
        List.filter_nil]
    · rw [write_queue_of_ne (Ne.symm hi), List.filter_cons_of_neg (by simp [hi]),
        List.filter_nil, List.append_nil]
  length := h.length
  turns := h.turns

theorem Represents.accept (h : s.Represents n B dest W) (o : Option α) :
    (s.accept dest o).Represents n B dest (W ++ o.toList) := by
  cases o with
  | none => rwa [Option.toList_none, List.append_nil]
  | some x => exact h.write

/-- What is queued for a socket was written to it. -/
theorem Represents.dest_of_mem (h : s.Represents n B dest W) {i : ℕ} (hx : x ∈ s.queue i) :
    dest x = i := by
  have hmem : x ∈ W.filter (dest · = i) := by
    rw [← h.conserve i]
    exact List.mem_append_right _ hx
  simpa using (List.mem_filter.mp hmem).2

/-- What has come out was written. -/
theorem Represents.mem_of_mem_out (h : s.Represents n B dest W) (hx : x ∈ s.out) : x ∈ W := by
  have hmem : x ∈ W.filter (dest · = dest x) := by
    rw [← h.conserve (dest x)]
    exact List.mem_append_left _ (List.mem_filter.mpr ⟨hx, by simp⟩)
  exact (List.mem_filter.mp hmem).1

/-- The next block comes from the socket whose turn it is. -/
theorem Represents.turn (h : s.Represents n B dest W) {j : ℕ} (hj : j < B) :
    (s.out.length + j) / B % n = s.sent % n := by
  rw [h.length, Nat.mul_comm, Nat.mul_add_div (Nat.zero_lt_of_lt hj), Nat.div_eq_of_lt hj,
    Nat.add_zero]

theorem Represents.forward (h : s.Represents n B dest W) :
    (s.forward n B).Represents n B dest W := by
  by_cases hready : s.Ready n B
  case neg =>
    rw [forward_of_not_ready hready]
    exact h
  have htake : ∀ y ∈ (s.queue (s.sent % n)).take B, dest y = s.sent % n := fun y hy ↦
    h.dest_of_mem (List.mem_of_mem_take hy)
  have hlen : ((s.queue (s.sent % n)).take B).length = B := by
    rw [List.length_take, Nat.min_eq_left hready]
  refine ⟨fun i ↦ ?_, ?_, ?_⟩
  · rw [← h.conserve i, forward_out hready, List.filter_append, List.append_assoc]
    refine congrArg _ ?_
    by_cases hi : i = s.sent % n
    · subst hi
      rw [forward_queue_self hready, List.filter_eq_self.mpr fun y hy ↦ by simp [htake y hy],
        List.take_append_drop]
    · rw [forward_queue_of_ne hi, List.filter_eq_nil_iff.mpr fun y hy ↦ ?_, List.nil_append]
      simp [htake y hy, Ne.symm hi]
  · rw [forward_out hready, forward_sent hready, List.length_append, h.length, hlen, Nat.succ_mul]
  · rw [forward_out hready]
    refine alternates_append.mpr ⟨h.turns, fun j hj ↦ ?_⟩
    rw [htake _ (List.getElem_mem hj), h.turn (hlen ▸ hj)]

theorem Represents.forward_iterate (h : s.Represents n B dest W) (k : ℕ) :
    ((ManyToOne.forward n B)^[k] s).Represents n B dest W := by
  induction k with
  | zero => exact h
  | succ k ih =>
    rw [Function.iterate_succ_apply']
    exact ih.forward

/-! ## Order -/

/-- **A writer that alternates is read in order**, at every moment. -/
theorem Represents.isPrefix (h : s.Represents n B dest W) (ha : Alternates n B dest W) :
    s.out.IsPrefix W :=
  isPrefix_of_filter (fun j hx hy ↦ (h.turns j hx).trans (ha j hy).symm) fun i ↦
    ⟨s.queue i, h.conserve i⟩

/-- **The order at the consumer.**  When whole blocks have been written and no more can be
forwarded, the consumer has everything in the order it was written if and only if the writer
alternates. -/
theorem Represents.out_eq_iff (h : s.Represents n B dest W) (hdvd : B ∣ W.length)
    (hs : ¬ s.Ready n B) : s.out = W ↔ Alternates n B dest W := by
  refine ⟨fun heq ↦ heq ▸ h.turns, fun ha ↦ ?_⟩
  obtain ⟨rest, rfl⟩ := h.isPrefix ha
  obtain ⟨-, hrest⟩ := alternates_append.mp ha
  -- the queue of the socket whose turn it is would hold the whole next block
  have hqueue : s.queue (s.sent % n) = rest.filter (dest · = s.sent % n) := by
    have hc := h.conserve (s.sent % n)
    rw [List.filter_append] at hc
    exact List.append_cancel_left hc
  rw [Ready, hqueue] at hs
  have hlen : B ∣ rest.length := by
    rw [List.length_append, h.length] at hdvd
    exact (Nat.dvd_add_right (Nat.dvd_mul_left B s.sent)).mp hdvd
  rcases Nat.lt_or_ge rest.length B with hlt | hge
  · rw [List.eq_nil_of_length_eq_zero (Nat.eq_zero_of_dvd_of_lt hlen hlt), List.append_nil]
  · refine absurd ?_ hs
    have hall : ∀ y ∈ rest.take B, dest y = s.sent % n := by
      intro y hy
      obtain ⟨j, hj, rfl⟩ := List.getElem_of_mem hy
      rw [List.length_take] at hj
      rw [List.getElem_take, hrest j (by omega), h.turn (by omega)]
    calc B = (rest.take B).length := by rw [List.length_take, Nat.min_eq_left hge]
      _ = ((rest.take B).filter (dest · = s.sent % n)).length := by
          rw [List.filter_eq_self.mpr fun y hy ↦ by simp [hall y hy]]
      _ ≤ (rest.filter (dest · = s.sent % n)).length :=
          ((List.take_sublist B rest).filter _).length_le

/-! ## Every block comes out in the end -/

/-- Forwarding makes progress while it can: a channel with finitely many sockets settles. -/
theorem exists_settled (hn : 0 < n) (hB : 0 < B) (s : ManyToOne α) :
    ∃ k, ¬ ((ManyToOne.forward n B)^[k] s).Ready n B := by
  by_contra hno
  have hready : ∀ k, ((ManyToOne.forward n B)^[k] s).Ready n B := by
    simpa using hno
  -- what is queued in all sockets together gets less with each block
  have hless : ∀ k, (∑ i ∈ Finset.range n, (((ManyToOne.forward n B)^[k] s).queue i).length) + k ≤
      ∑ i ∈ Finset.range n, (s.queue i).length := by
    intro k
    induction k with
    | zero => exact Nat.le_refl _
    | succ k ih =>
      refine Nat.le_trans ?_ ih
      have hk := hready k
      rw [Function.iterate_succ_apply', ← Nat.add_assoc, Nat.add_right_comm]
      refine Nat.add_le_add_right (Nat.succ_le_of_lt (Finset.sum_lt_sum (fun i _ ↦ ?_) ⟨_,
        Finset.mem_range.mpr (Nat.mod_lt ((ManyToOne.forward n B)^[k] s).sent hn), ?_⟩)) k
      · by_cases hi : i = ((ManyToOne.forward n B)^[k] s).sent % n
        · subst hi
          rw [forward_queue_self hk, List.length_drop]
          exact Nat.sub_le _ _
        · rw [forward_queue_of_ne hi]
      · rw [forward_queue_self hk, List.length_drop]
        exact Nat.sub_lt (Nat.lt_of_lt_of_le hB hk) hB
  have := hless ((∑ i ∈ Finset.range n, (s.queue i).length) + 1)
  omega

end ManyToOne

end Channels
