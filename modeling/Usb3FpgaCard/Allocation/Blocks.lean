import Mathlib.Data.List.Basic
import Mathlib.Data.List.Pairwise
import Mathlib.Data.Nat.Notation
import Mathlib.Logic.Function.Basic
import Mathlib.Order.Bounds.Basic

/-!
# Blocks in a table of marks

A region of `n` cells is divided among blocks, and a table with one mark for each cell is all that
is remembered of it.  A block marks its cells except the last, so that its length can be read off
the table again: from its first cell the marks go on to the cell before its last.  A new block is
put into a run of unmarked cells with one cell more than it needs, and leaves out the first, which
may be the last cell of the block before.

`Marks` says that a table stands for a list of blocks.  Then they are apart, taking a new block from
an unmarked run keeps this (`Marks.insert`), and so does clearing the marks that follow a cell,
whatever cell that is (`Marks.cut`): it ends the block there, or removes it if it is its first cell,
and no other block notices.

`firstFit` is the scan for the first unmarked run of a given length.
-/

set_option autoImplicit false

namespace Allocation

/-! ## Blocks -/

/-- The cells `start`, …, `start + len - 1`. -/
structure Block where
  start : ℕ
  len : ℕ
  deriving DecidableEq

namespace Block

/-- The cell after the last one. -/
def stop (b : Block) : ℕ := b.start + b.len

/-- The cell belongs to the block. -/
def Holds (b : Block) (i : ℕ) : Prop := b.start ≤ i ∧ i < b.stop

instance (b : Block) (i : ℕ) : Decidable (b.Holds i) := inferInstanceAs (Decidable (_ ∧ _))

/-- The blocks have no cell in common. -/
def Apart (b c : Block) : Prop := b.stop ≤ c.start ∨ c.stop ≤ b.start

/-- The block marks the cell: it is one of its cells, and not the last. -/
def Covers (b : Block) (i : ℕ) : Prop := b.start ≤ i ∧ i + 1 < b.stop

/-- What is left of the block when it ends at cell `l`: nothing if that is its first cell. -/
def cut (l : ℕ) (b : Block) : Option Block :=
  if b.Holds l then
    if l = b.start then none else some ⟨b.start, l + 1 - b.start⟩
  else some b

variable {b c : Block} {i l : ℕ}

theorem Apart.symm (h : b.Apart c) : c.Apart b := Or.symm h

instance : Std.Symm Apart where
  symm _ _ h := h.symm

theorem Apart.not_holds (h : b.Apart c) (hb : b.Holds i) : ¬ c.Holds i := by
  unfold Apart at h
  unfold Holds at *
  omega

theorem cut_of_not_holds (h : ¬ b.Holds l) : b.cut l = some b := if_neg h

theorem cut_start (h : 0 < b.len) : b.cut b.start = none := by
  rw [cut, if_pos ⟨Nat.le_refl _, Nat.lt_add_of_pos_right h⟩, if_pos rfl]

/-- A block that is left starts where it did and ends no later. -/
theorem cut_eq_some (h : b.cut l = some c) :
    c.start = b.start ∧ (c.len = b.len ∧ ¬ b.Holds l ∨
      c.len = l + 1 - b.start ∧ b.start < l ∧ l < b.stop) := by
  unfold cut at h
  by_cases hl : b.Holds l
  · rw [if_pos hl] at h
    by_cases hs : l = b.start
    · rw [if_pos hs] at h
      exact absurd h (by simp)
    · rw [if_neg hs] at h
      obtain rfl := Option.some.inj h
      exact ⟨rfl, Or.inr ⟨rfl, Nat.lt_of_le_of_ne hl.1 (Ne.symm hs), hl.2⟩⟩
  · rw [if_neg hl] at h
    obtain rfl := Option.some.inj h
    exact ⟨rfl, Or.inl ⟨rfl, hl⟩⟩

theorem cut_stop_le (h : b.cut l = some c) : c.stop ≤ b.stop := by
  obtain ⟨hs, ⟨hlen, -⟩ | ⟨hlen, hlt, hstop⟩⟩ := cut_eq_some h
  · exact Nat.le_of_eq (by rw [stop, stop, hs, hlen])
  · unfold stop at *
    omega

theorem two_le_cut (h : b.cut l = some c) (hb : 2 ≤ b.len) : 2 ≤ c.len := by
  obtain ⟨-, ⟨hlen, -⟩ | ⟨hlen, hlt, -⟩⟩ := cut_eq_some h <;> omega

theorem Apart.cut {b' c' : Block} (h : b.Apart c) (hb : b.cut l = some b')
    (hc : c.cut l = some c') : b'.Apart c' := by
  have hb₁ := cut_stop_le hb
  have hc₁ := cut_stop_le hc
  have hb₂ := (cut_eq_some hb).1
  have hc₂ := (cut_eq_some hc).1
  unfold Apart at *
  omega

end Block

/-! ## Tables -/

variable {bits : ℕ → Bool} {bs : List Block} {n z l c i len : ℕ}

/-- The marks of the `count` cells from `start` on are made `v`. -/
def mark (bits : ℕ → Bool) (start count : ℕ) (v : Bool) (i : ℕ) : Bool :=
  if start ≤ i ∧ i < start + count then v else bits i

/-- The `count` cells from `z` on are unmarked. -/
def Free (bits : ℕ → Bool) (z count : ℕ) : Prop :=
  ∀ i, z ≤ i → i < z + count → bits i = false

/-- Exactly `c` marks follow one another from cell `l` on. -/
structure Run (bits : ℕ → Bool) (l c : ℕ) : Prop where
  marked : ∀ i, l ≤ i → i < l + c → bits i = true
  closed : bits (l + c) = false

/-- The table stands for the blocks `bs` of a region of `n` cells. -/
structure Marks (n : ℕ) (bits : ℕ → Bool) (bs : List Block) : Prop where
  two_le : ∀ b ∈ bs, 2 ≤ b.len
  stop_le : ∀ b ∈ bs, b.stop ≤ n
  apart : bs.Pairwise Block.Apart
  marked_iff : ∀ i, bits i = true ↔ ∃ b ∈ bs, b.Covers i

theorem mark_of_mem {start count : ℕ} {v : Bool} (h : start ≤ i ∧ i < start + count) :
    mark bits start count v i = v := if_pos h

theorem mark_of_not_mem {start count : ℕ} {v : Bool} (h : ¬ (start ≤ i ∧ i < start + count)) :
    mark bits start count v i = bits i := if_neg h

theorem mark_zero (start : ℕ) (v : Bool) : mark bits start 0 v = bits := by
  funext i
  exact mark_of_not_mem (by omega)

/-- Marks made one after the other. -/
theorem mark_mark (start c₁ c₂ : ℕ) (v : Bool) :
    mark (mark bits start c₁ v) (start + c₁) c₂ v = mark bits start (c₁ + c₂) v := by
  funext i
  by_cases h₂ : start + c₁ ≤ i ∧ i < start + c₁ + c₂
  · rw [mark_of_mem h₂, mark_of_mem (by omega)]
  · rw [mark_of_not_mem h₂]
    by_cases h₁ : start ≤ i ∧ i < start + c₁
    · rw [mark_of_mem h₁, mark_of_mem (by omega)]
    · rw [mark_of_not_mem h₁, mark_of_not_mem (by omega)]

theorem free_succ : Free bits z (c + 1) ↔ Free bits z c ∧ bits (z + c) = false := by
  constructor
  · intro h
    exact ⟨fun i hi hlt ↦ h i hi (by omega), h (z + c) (by omega) (by omega)⟩
  · rintro ⟨h, hlast⟩ i hi hlt
    rcases Nat.lt_succ_iff_lt_or_eq.mp hlt with hlt | rfl
    · exact h i hi hlt
    · exact hlast

theorem marks_nil (n : ℕ) : Marks n (fun _ ↦ false) [] where
  two_le _ h := absurd h List.not_mem_nil
  stop_le _ h := absurd h List.not_mem_nil
  apart := List.Pairwise.nil
  marked_iff i := by simp

namespace Marks

/-- A marked cell lies in the region, and so does the one after it. -/
theorem lt_of_marked (h : Marks n bits bs) (hi : bits i = true) : i + 1 < n := by
  obtain ⟨b, hb, hc⟩ := (h.marked_iff i).mp hi
  exact Nat.lt_of_lt_of_le hc.2 (h.stop_le b hb)

/-- Two blocks that hold a cell are the same. -/
theorem eq_of_holds (h : Marks n bits bs) {b c : Block} (hb : b ∈ bs) (hc : c ∈ bs)
    (hbi : b.Holds i) (hci : c.Holds i) : b = c := by
  by_contra hne
  exact (h.apart.forall hb hc hne).not_holds hbi hci

theorem holds_start (h : Marks n bits bs) {b : Block} (hb : b ∈ bs) : b.Holds b.start :=
  ⟨Nat.le_refl _, by have := h.two_le b hb; unfold Block.stop; omega⟩

theorem eq_of_start (h : Marks n bits bs) {b c : Block} (hb : b ∈ bs) (hc : c ∈ bs)
    (he : b.start = c.start) : b = c :=
  h.eq_of_holds hb hc (h.holds_start hb) (he ▸ h.holds_start hc)

theorem nodup (h : Marks n bits bs) : bs.Nodup :=
  h.apart.imp_of_mem fun hb _ hap he ↦
    hap.not_holds (h.holds_start hb) (he ▸ h.holds_start hb)

/-- Only the first of a run of unmarked cells can belong to a block. -/
theorem apart_of_free (h : Marks n bits bs) (hfree : Free bits z (len + 1)) {b : Block}
    (hb : b ∈ bs) : Block.Apart ⟨z + 1, len⟩ b := by
  have hlen := h.two_le b hb
  by_contra hnot
  simp only [Block.Apart, Block.stop, not_or, not_le] at hnot
  -- the first unmarked cell of the run that `b` would have to mark
  have hmarked : bits (max z b.start) = true :=
    (h.marked_iff _).mpr ⟨b, hb, Nat.le_max_right _ _, by unfold Block.stop; omega⟩
  rw [hfree _ (Nat.le_max_left _ _) (by omega)] at hmarked
  exact absurd hmarked (by simp)

/-- **A block is put into a run of unmarked cells.** -/
theorem insert (h : Marks n bits bs) (hfree : Free bits z (len + 1)) (hlen : 2 ≤ len)
    (hn : z + len < n) : Marks n (mark bits (z + 1) (len - 1) true) (⟨z + 1, len⟩ :: bs) where
  two_le b hb := by
    rcases List.mem_cons.mp hb with rfl | hb
    · exact hlen
    · exact h.two_le b hb
  stop_le b hb := by
    rcases List.mem_cons.mp hb with rfl | hb
    · rw [Block.stop]
      dsimp only
      omega
    · exact h.stop_le b hb
  apart := List.pairwise_cons.mpr ⟨fun b hb ↦ h.apart_of_free hfree hb, h.apart⟩
  marked_iff i := by
    have hcover : Block.Covers ⟨z + 1, len⟩ i ↔ z + 1 ≤ i ∧ i < z + 1 + (len - 1) := by
      simp only [Block.Covers, Block.stop]
      omega
    by_cases hi : z + 1 ≤ i ∧ i < z + 1 + (len - 1)
    · rw [mark_of_mem hi]
      exact ⟨fun _ ↦ ⟨_, List.mem_cons_self, hcover.mpr hi⟩, fun _ ↦ rfl⟩
    · rw [mark_of_not_mem hi, h.marked_iff]
      constructor
      · rintro ⟨b, hb, hc⟩
        exact ⟨b, List.mem_cons_of_mem _ hb, hc⟩
      · rintro ⟨b, hb, hc⟩
        rcases List.mem_cons.mp hb with rfl | hb
        · exact absurd (hcover.mp hc) hi
        · exact ⟨b, hb, hc⟩

/-- In a block the marks go on to the cell before its last. -/
theorem run_eq (h : Marks n bits bs) {b : Block} (hb : b ∈ bs) (hl : b.Holds l)
    (hrun : Run bits l c) : l + c + 1 = b.stop := by
  have hlen := h.two_le b hb
  have hge : ¬ l + c + 1 < b.stop := fun hlt ↦ by
    have := (h.marked_iff (l + c)).mpr ⟨b, hb, by have := hl.1; omega, hlt⟩
    rw [hrun.closed] at this
    exact absurd this (by simp)
  have hle : ¬ b.stop < l + c + 1 := fun hlt ↦ by
    have hlast : bits (b.stop - 1) = true := by
      refine hrun.marked _ ?_ ?_ <;> have := hl.2 <;> omega
    obtain ⟨d, hd, hcov⟩ := (h.marked_iff _).mp hlast
    have hhold : b.Holds (b.stop - 1) := by
      unfold Block.Holds Block.stop
      omega
    obtain rfl := h.eq_of_holds hd hb ⟨hcov.1, by have := hcov.2; omega⟩ hhold
    have := hcov.2
    omega
  omega

/-- A cell is still marked when the marks from `l` on are cleared if it was marked by a block that
ends before `l`, starts after it, or marks it before `l`. -/
theorem marked_cut (h : Marks n bits bs) (hrun : Run bits l c) {b : Block} (hb : b ∈ bs) :
    (∃ b', b.cut l = some b' ∧ b'.Covers i) ↔ b.Covers i ∧ ¬ (l ≤ i ∧ i < l + c) := by
  by_cases hl : b.Holds l
  · have hstop := h.run_eq hb hl hrun
    rw [Block.cut, if_pos hl]
    by_cases hs : l = b.start
    · rw [if_pos hs]
      simp only [reduceCtorEq, false_and, exists_false, false_iff]
      unfold Block.Covers
      omega
    · rw [if_neg hs]
      simp only [Option.some.injEq, exists_eq_left']
      have := hl.1
      unfold Block.Covers Block.stop at *
      simp only at *
      omega
  · rw [Block.cut_of_not_holds hl]
    simp only [Option.some.injEq, exists_eq_left']
    refine ⟨fun hcov ↦ ⟨hcov, fun hi ↦ ?_⟩, fun hcov ↦ hcov.1⟩
    -- the marks from `l` on belong to one block, which is not `b`
    obtain ⟨d, hd, hdl⟩ := (h.marked_iff l).mp (hrun.marked l (Nat.le_refl _) (by omega))
    have hdh : d.Holds l := ⟨hdl.1, by have := hdl.2; omega⟩
    have hstop := h.run_eq hd hdh hrun
    have hdi : d.Holds i := ⟨by have := hdl.1; omega, by omega⟩
    obtain rfl := h.eq_of_holds hb hd ⟨hcov.1, by have := hcov.2; omega⟩ hdi
    exact hl hdh

/-- **Clearing the marks that follow a cell ends the block there.** -/
theorem cut (h : Marks n bits bs) (hrun : Run bits l c) :
    Marks n (mark bits l c false) (bs.filterMap (Block.cut l)) where
  two_le b' hb' := by
    obtain ⟨b, hb, hcut⟩ := List.mem_filterMap.mp hb'
    exact Block.two_le_cut hcut (h.two_le b hb)
  stop_le b' hb' := by
    obtain ⟨b, hb, hcut⟩ := List.mem_filterMap.mp hb'
    exact Nat.le_trans (Block.cut_stop_le hcut) (h.stop_le b hb)
  apart := by
    refine List.pairwise_filterMap.mpr (h.apart.imp fun {b c} hbc b' hb' c' hc' ↦ ?_)
    exact hbc.cut hb' hc'
  marked_iff i := by
    have hcut : (∃ b' ∈ bs.filterMap (Block.cut l), b'.Covers i) ↔
        (∃ b ∈ bs, b.Covers i) ∧ ¬ (l ≤ i ∧ i < l + c) := by
      constructor
      · rintro ⟨b', hb', hcov⟩
        obtain ⟨b, hb, hcut⟩ := List.mem_filterMap.mp hb'
        obtain ⟨h₁, h₂⟩ := (h.marked_cut hrun hb).mp ⟨b', hcut, hcov⟩
        exact ⟨⟨b, hb, h₁⟩, h₂⟩
      · rintro ⟨⟨b, hb, h₁⟩, h₂⟩
        obtain ⟨b', hcut, hcov⟩ := (h.marked_cut hrun hb).mpr ⟨h₁, h₂⟩
        exact ⟨b', List.mem_filterMap.mpr ⟨b, hb, hcut⟩, hcov⟩
    rw [hcut, ← h.marked_iff]
    by_cases hi : l ≤ i ∧ i < l + c
    · simp [mark_of_mem hi, hi]
    · simp [mark_of_not_mem hi, hi]

/-- **Clearing the marks from the first cell of a block on removes this block and no other.** -/
theorem cut_eq_erase (h : Marks n bits bs) {b : Block} (hb : b ∈ bs) :
    bs.filterMap (Block.cut b.start) = bs.filter (· ≠ b) := by
  have hb₀ := h.holds_start hb
  rw [← List.filterMap_eq_filter]
  refine List.filterMap_congr fun d hd ↦ ?_
  by_cases hdb : d = b
  · subst hdb
    rw [Block.cut_start (by have := h.two_le d hb; omega)]
    simp [Option.guard]
  · rw [Block.cut_of_not_holds fun hdl ↦ hdb (h.eq_of_holds hd hb hdl hb₀)]
    simp [Option.guard, hdb]

end Marks

/-! ## First fit -/

/-- Goes through `k` cells from cell `p` on, after `c` unmarked ones, and stops after `need`
unmarked cells in a row: at which cell they start. -/
def firstFit (bits : ℕ → Bool) (need : ℕ) : (k p c : ℕ) → Option ℕ
  | 0, _, _ => none
  | k + 1, p, c =>
    if bits p then firstFit bits need k (p + 1) 0
    else if c + 1 = need then some (p + 1 - need)
    else firstFit bits need k (p + 1) (c + 1)

/-- An unmarked run of `need` cells from `z` on, in the cells from `lo` to before `hi`. -/
structure Fits (bits : ℕ → Bool) (need lo hi z : ℕ) : Prop where
  le : lo ≤ z
  stop_le : z + need ≤ hi
  free : Free bits z need

variable {need k p lo hi : ℕ}

theorem Fits.mono {lo' hi' : ℕ} (h : Fits bits need lo hi z) (hlo : lo' ≤ lo) (hhi : hi ≤ hi') :
    Fits bits need lo' hi' z := ⟨Nat.le_trans hlo h.le, Nat.le_trans h.stop_le hhi, h.free⟩

/-- A run that would go over a marked cell does not fit. -/
theorem Fits.not_across (h : Fits bits need lo hi z) (hp : bits p = true) (hz : z ≤ p) :
    z + need ≤ p := by
  by_contra hlt
  rw [h.free p hz (by omega)] at hp
  exact absurd hp (by simp)

theorem firstFit_spec (hc : c < need) (hcp : c ≤ p) (hfree : Free bits (p - c) c) :
    (∀ z, firstFit bits need k p c = some z → IsLeast {z | Fits bits need (p - c) (p + k) z} z) ∧
      (firstFit bits need k p c = none → ∀ z, ¬ Fits bits need (p - c) (p + k) z) := by
  induction k generalizing p c with
  | zero =>
    refine ⟨fun z h ↦ absurd h (by simp [firstFit]), fun _ z hz ↦ ?_⟩
    have := hz.le
    have := hz.stop_le
    omega
  | succ k ih =>
    rw [firstFit]
    by_cases hp : bits p = true
    · rw [if_pos hp]
      obtain ⟨hsome, hnone⟩ := ih (c := 0) (p := p + 1) (by omega) (by omega)
        (fun i hi hlt ↦ by omega)
      -- no run that starts before the marked cell fits
      have hbeyond : ∀ z, Fits bits need (p - c) (p + (k + 1)) z →
          Fits bits need (p + 1 - 0) (p + 1 + k) z := fun z hz ↦ by
        refine ⟨?_, by have := hz.stop_le; omega, hz.free⟩
        by_contra hlt
        have := hz.not_across hp (by omega)
        have := hz.le
        omega
      refine ⟨fun z h ↦ ?_, fun h z hz ↦ hnone h z (hbeyond z hz)⟩
      obtain ⟨hz, hleast⟩ := hsome z h
      exact ⟨Fits.mono hz (by omega) (by omega), fun z' hz' ↦ hleast (hbeyond z' hz')⟩
    · rw [if_neg hp]
      have hfree' : Free bits (p + 1 - (c + 1)) (c + 1) := by
        rw [show p + 1 - (c + 1) = p - c by omega]
        exact free_succ.mpr ⟨hfree, by rwa [Nat.sub_add_cancel hcp, ← Bool.not_eq_true]⟩
      by_cases hneed : c + 1 = need
      · rw [if_pos hneed]
        refine ⟨fun z h ↦ ?_, fun h ↦ absurd h (by simp)⟩
        obtain rfl := Option.some.inj h
        refine ⟨⟨by omega, by omega, by rwa [hneed] at hfree'⟩, fun z' hz' ↦ ?_⟩
        have := hz'.le
        omega
      · rw [if_neg hneed]
        obtain ⟨hsome, hnone⟩ := ih (c := c + 1) (p := p + 1) (by omega) (by omega) hfree'
        have hset : p + 1 - (c + 1) = p - c := by omega
        have hend : p + 1 + k = p + (k + 1) := by omega
        rw [hset, hend] at hsome hnone
        exact ⟨hsome, hnone⟩

/-- **The scan finds the first run that fits.** -/
theorem firstFit_eq_some (hneed : 0 < need) (h : firstFit bits need k lo 0 = some z) :
    IsLeast {z | Fits bits need lo (lo + k) z} z :=
  (firstFit_spec hneed (Nat.zero_le _) fun i hi hlt ↦ absurd hlt (by omega)).1 z h

/-- **It finds nothing only where nothing fits.** -/
theorem firstFit_eq_none (hneed : 0 < need) (h : firstFit bits need k lo 0 = none) :
    ¬ Fits bits need lo (lo + k) z :=
  (firstFit_spec hneed (Nat.zero_le _) fun i hi hlt ↦ absurd hlt (by omega)).2 h z

end Allocation
