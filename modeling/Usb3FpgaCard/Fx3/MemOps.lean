import Usb3FpgaCard.Allocation.Copying

/-!
# Memory blocks: `fx3/cyfxtx.c`

`CyU3PMemSet`, `CyU3PMemCopy` and `CyU3PMemCmp`, on a memory of bytes.  The first two do eight bytes
in a turn as long as there are eight, and `CyU3PMemCopy` goes down if the destination is above the
source.  None of this shows: a block is set (`memSet_eq`) or copied (`memCopy_eq`) as a whole, and
the blocks of a copy may overlap in any way.
-/

set_option autoImplicit false

namespace Usb3FpgaCard
namespace Fx3

open Allocation

/-- The bytes of the memory. -/
abbrev Bytes := ℕ → BitVec 8

/-! ## The functions -/

/-- Eight bytes are set. -/
def setEight (data : BitVec 8) (mem : Bytes) (ptr : ℕ) : Bytes :=
  [0, 1, 2, 3, 4, 5, 6, 7].foldl (fun mem i ↦ Function.update mem (ptr + i) data) mem

/-- The unrolled loop of `CyU3PMemSet`: the memory, and what is left to do. -/
def setUnrolled (data : BitVec 8) (mem : Bytes) (ptr count : ℕ) : Bytes × ℕ × ℕ :=
  if h : count / 8 ≠ 0 then setUnrolled data (setEight data mem ptr) (ptr + 8) (count - 8)
  else (mem, ptr, count)
termination_by count
decreasing_by omega

/-- The other loop of `CyU3PMemSet`. -/
def setBytes (data : BitVec 8) : (mem : Bytes) → (ptr count : ℕ) → Bytes
  | mem, _, 0 => mem
  | mem, ptr, count + 1 => setBytes data (Function.update mem ptr data) (ptr + 1) count

/-- `CyU3PMemSet`. -/
def memSet (mem : Bytes) (ptr : ℕ) (data : BitVec 8) (count : ℕ) : Bytes :=
  let (mem, ptr, count) := setUnrolled data mem ptr count
  setBytes data mem ptr count

/-- Eight bytes are copied, the last first. -/
def copyEightDown (mem : Bytes) (dest src : ℕ) : Bytes :=
  [7, 6, 5, 4, 3, 2, 1, 0].foldl (fun mem i ↦ Function.update mem (dest + i) (mem (src + i))) mem

/-- Eight bytes are copied, the first first. -/
def copyEightUp (mem : Bytes) (dest src : ℕ) : Bytes :=
  [0, 1, 2, 3, 4, 5, 6, 7].foldl (fun mem i ↦ Function.update mem (dest + i) (mem (src + i))) mem

/-- The unrolled loop of `CyU3PMemCopy` that goes down. -/
def copyDownUnrolled (mem : Bytes) (dest src count : ℕ) : Bytes × ℕ × ℕ × ℕ :=
  if h : 8 ≤ count then
    let dest := dest - 8
    let src := src - 8
    copyDownUnrolled (copyEightDown mem dest src) dest src (count - 8)
  else (mem, dest, src, count)
termination_by count
decreasing_by omega

/-- The other loop that goes down. -/
def copyDownBytes : (mem : Bytes) → (dest src count : ℕ) → Bytes
  | mem, _, _, 0 => mem
  | mem, dest, src, count + 1 =>
    copyDownBytes (Function.update mem (dest - 1) (mem (src - 1))) (dest - 1) (src - 1) count

/-- The unrolled loop of `CyU3PMemCopy` that goes up. -/
def copyUpUnrolled (mem : Bytes) (dest src count : ℕ) : Bytes × ℕ × ℕ × ℕ :=
  if h : 8 ≤ count then
    copyUpUnrolled (copyEightUp mem dest src) (dest + 8) (src + 8) (count - 8)
  else (mem, dest, src, count)
termination_by count
decreasing_by omega

/-- The other loop that goes up. -/
def copyUpBytes : (mem : Bytes) → (dest src count : ℕ) → Bytes
  | mem, _, _, 0 => mem
  | mem, dest, src, count + 1 =>
    copyUpBytes (Function.update mem dest (mem src)) (dest + 1) (src + 1) count

/-- `CyU3PMemCopy`. -/
def memCopy (mem : Bytes) (dest src count : ℕ) : Bytes :=
  if src < dest then
    let (mem, dest, src, count) := copyDownUnrolled mem (dest + count) (src + count) count
    copyDownBytes mem dest src count
  else
    let (mem, dest, src, count) := copyUpUnrolled mem dest src count
    copyUpBytes mem dest src count

/-- `CyU3PMemCmp`. -/
def memCmp (mem : Bytes) : (s1 s2 n : ℕ) → Int
  | _, _, 0 => 0
  | s1, s2, n + 1 =>
    if mem s1 ≠ mem s2 then (mem s1).toNat - (mem s2).toNat else memCmp mem (s1 + 1) (s2 + 1) n

/-! ## Setting -/

section MemSet

variable {mem : Bytes} {data : BitVec 8} {ptr count : ℕ}

/-- A block is set at once. -/
def filled (mem : Bytes) (ptr : ℕ) (data : BitVec 8) (count a : ℕ) : BitVec 8 :=
  if ptr ≤ a ∧ a < ptr + count then data else mem a

theorem filled_filled (m n : ℕ) :
    filled (filled mem ptr data m) (ptr + m) data n = filled mem ptr data (m + n) := by
  funext a
  unfold filled
  by_cases hn : ptr + m ≤ a ∧ a < ptr + m + n
  · rw [if_pos hn, if_pos (by omega)]
  · rw [if_neg hn]
    by_cases hm : ptr ≤ a ∧ a < ptr + m
    · rw [if_pos hm, if_pos (by omega)]
    · rw [if_neg hm, if_neg (by omega)]

theorem setBytes_eq : setBytes data mem ptr count = filled mem ptr data count := by
  induction count generalizing mem ptr with
  | zero =>
    funext a
    exact (if_neg (by omega)).symm
  | succ count ih =>
    have hone : Function.update mem ptr data = filled mem ptr data 1 := by
      funext a
      unfold filled
      by_cases ha : a = ptr
      · rw [ha, Function.update_self, if_pos (by omega)]
      · rw [Function.update_of_ne ha, if_neg (by omega)]
    rw [setBytes, ih, hone, filled_filled, Nat.add_comm 1]

theorem setEight_eq : setEight data mem ptr = filled mem ptr data 8 := by
  rw [← setBytes_eq]
  rfl

theorem setUnrolled_eq :
    setUnrolled data mem ptr count =
      (filled mem ptr data (8 * (count / 8)), ptr + 8 * (count / 8), count % 8) := by
  induction count using Nat.strongRecOn generalizing mem ptr with
  | ind count ih =>
    rw [setUnrolled]
    by_cases h : count / 8 ≠ 0
    · rw [dif_pos h, ih (count - 8) (by omega), setEight_eq, filled_filled]
      rw [show 8 + 8 * ((count - 8) / 8) = 8 * (count / 8) by omega,
        show ptr + 8 + 8 * ((count - 8) / 8) = ptr + 8 * (count / 8) by omega,
        show (count - 8) % 8 = count % 8 by omega]
    · have h0 : count / 8 = 0 := not_not.mp h
      have hnone : filled mem ptr data 0 = mem := by
        funext a
        exact if_neg (by omega)
      rw [dif_neg h, h0, Nat.mul_zero, hnone, Nat.add_zero, Nat.mod_eq_of_lt (by omega)]

/-- **A block is set, and nothing else.** -/
theorem memSet_eq : memSet mem ptr data count = filled mem ptr data count := by
  rw [memSet, setUnrolled_eq]
  dsimp only
  rw [setBytes_eq, filled_filled, Nat.div_add_mod]

end MemSet

/-! ## Copying -/

section MemCopy

variable {mem : Bytes} {dest src count : ℕ}

theorem copyUpBytes_eq : copyUpBytes mem dest src count = copyUp mem dest src count := by
  induction count generalizing mem dest src with
  | zero => rfl
  | succ count ih => rw [copyUpBytes, ih, copyUp]

theorem copyUpUnrolled_eq :
    copyUpUnrolled mem dest src count =
      (copyUp mem dest src (8 * (count / 8)), dest + 8 * (count / 8), src + 8 * (count / 8),
        count % 8) := by
  induction count using Nat.strongRecOn generalizing mem dest src with
  | ind count ih =>
    rw [copyUpUnrolled]
    by_cases h : 8 ≤ count
    · have height : copyEightUp mem dest src = copyUp mem dest src 8 := rfl
      rw [dif_pos h, ih (count - 8) (by omega), height, ← copyUp_add]
      rw [show 8 + 8 * ((count - 8) / 8) = 8 * (count / 8) by omega,
        show dest + 8 + 8 * ((count - 8) / 8) = dest + 8 * (count / 8) by omega,
        show src + 8 + 8 * ((count - 8) / 8) = src + 8 * (count / 8) by omega,
        show (count - 8) % 8 = count % 8 by omega]
    · have h0 : count / 8 = 0 := by omega
      rw [dif_neg h, h0, Nat.mul_zero, Nat.add_zero, Nat.add_zero, Nat.mod_eq_of_lt (by omega)]
      rfl

theorem copyDownBytes_eq :
    copyDownBytes mem (dest + count) (src + count) count = copyDown mem dest src count := by
  induction count generalizing mem with
  | zero => rfl
  | succ count ih =>
    rw [copyDownBytes, show dest + (count + 1) - 1 = dest + count by omega,
      show src + (count + 1) - 1 = src + count by omega, ih, copyDown]

theorem copyDownUnrolled_eq :
    copyDownUnrolled mem (dest + count) (src + count) count =
      (copyDown mem (dest + count % 8) (src + count % 8) (8 * (count / 8)), dest + count % 8,
        src + count % 8, count % 8) := by
  induction count using Nat.strongRecOn generalizing mem with
  | ind count ih =>
    rw [copyDownUnrolled]
    by_cases h : 8 ≤ count
    · have height : ∀ d s, copyEightDown mem d s = copyDown mem d s 8 := fun _ _ ↦ rfl
      rw [dif_pos h]
      dsimp only
      rw [height, show dest + count - 8 = dest + (count - 8) by omega,
        show src + count - 8 = src + (count - 8) by omega, ih (count - 8) (by omega)]
      have hadd := copyDown_add mem (dest + count % 8) (src + count % 8) (8 * ((count - 8) / 8)) 8
      rw [show 8 * ((count - 8) / 8) + 8 = 8 * (count / 8) by omega,
        show dest + count % 8 + 8 * ((count - 8) / 8) = dest + (count - 8) by omega,
        show src + count % 8 + 8 * ((count - 8) / 8) = src + (count - 8) by omega] at hadd
      rw [show (count - 8) % 8 = count % 8 by omega, ← hadd]
    · have h0 : count / 8 = 0 := by omega
      rw [dif_neg h, h0, Nat.mul_zero, Nat.mod_eq_of_lt (by omega)]
      rfl

/-- **A block is copied as it was**, wherever it goes. -/
theorem memCopy_eq : memCopy mem dest src count = copied mem dest src count := by
  rw [memCopy]
  by_cases h : src < dest
  · rw [if_pos h, copyDownUnrolled_eq]
    dsimp only
    rw [copyDownBytes_eq, ← copyDown_add, Nat.mod_add_div, copyDown_eq (Nat.le_of_lt h)]
  · rw [if_neg h, copyUpUnrolled_eq]
    dsimp only
    rw [copyUpBytes_eq, ← copyUp_add, Nat.div_add_mod, copyUp_eq (Nat.not_lt.mp h)]

end MemCopy

/-! ## Comparing -/

section MemCmp

variable {mem : Bytes} {s1 s2 n : ℕ}

/-- The blocks agree before byte `k`, and differ there. -/
structure DifferAt (mem : Bytes) (s1 s2 n k : ℕ) : Prop where
  lt : k < n
  agree : ∀ i < k, mem (s1 + i) = mem (s2 + i)
  ne : mem (s1 + k) ≠ mem (s2 + k)

/-- **The blocks are compared by the first byte in which they differ.** -/
theorem memCmp_eq (mem : Bytes) (s1 s2 n : ℕ) :
    (memCmp mem s1 s2 n = 0 ∧ ∀ i < n, mem (s1 + i) = mem (s2 + i)) ∨
      ∃ k, DifferAt mem s1 s2 n k ∧
        memCmp mem s1 s2 n = (mem (s1 + k)).toNat - (mem (s2 + k)).toNat := by
  induction n generalizing s1 s2 with
  | zero => exact Or.inl ⟨rfl, fun i hi ↦ absurd hi (Nat.not_lt_zero i)⟩
  | succ n ih =>
    rw [memCmp]
    by_cases h : mem s1 = mem s2
    · rw [if_neg (not_not.mpr h)]
      have hagree : ∀ k, (∀ i < k, mem (s1 + 1 + i) = mem (s2 + 1 + i)) →
          ∀ i < k + 1, mem (s1 + i) = mem (s2 + i) := fun k hk i hi ↦ by
        cases i with
        | zero => exact h
        | succ i =>
          have := hk i (by omega)
          rwa [Nat.add_right_comm, Nat.add_right_comm s2] at this
      rcases @ih (s1 + 1) (s2 + 1) with ⟨hzero, hall⟩ | ⟨k, hk, heq⟩
      · exact Or.inl ⟨hzero, hagree n hall⟩
      · refine Or.inr ⟨k + 1, ⟨by have := hk.lt; omega, hagree k hk.agree, ?_⟩, ?_⟩
        · rw [show s1 + (k + 1) = s1 + 1 + k by omega, show s2 + (k + 1) = s2 + 1 + k by omega]
          exact hk.ne
        · rw [show s1 + (k + 1) = s1 + 1 + k by omega, show s2 + (k + 1) = s2 + 1 + k by omega]
          exact heq
    · rw [if_pos h]
      exact Or.inr ⟨0, ⟨Nat.succ_pos n, fun i hi ↦ absurd hi (Nat.not_lt_zero i), h⟩, rfl⟩

theorem memCmp_eq_zero_iff : memCmp mem s1 s2 n = 0 ↔ ∀ i < n, mem (s1 + i) = mem (s2 + i) := by
  rcases memCmp_eq mem s1 s2 n with ⟨hzero, hall⟩ | ⟨k, hk, heq⟩
  · exact iff_of_true hzero hall
  · refine iff_of_false (fun h0 ↦ hk.ne (BitVec.eq_of_toNat_eq ?_)) fun h ↦ hk.ne (h k hk.lt)
    omega

/-- **A block that has been copied compares as equal** to its copy, if they do not overlap. -/
theorem memCmp_memCopy {dest src count : ℕ} (h : dest + count ≤ src ∨ src + count ≤ dest) :
    memCmp (memCopy mem dest src count) dest src count = 0 := by
  rw [memCmp_eq_zero_iff, memCopy_eq]
  intro i hi
  rw [copied_of_mem (by omega), copied_of_not_mem (by omega), Nat.add_sub_cancel_left]

end MemCmp

/-- What the three functions do to the bytes of the memory, and what they say about them. -/
structure BlockOps (mem : Bytes) : Prop where
  set : ∀ ptr data count a,
    memSet mem ptr data count a = if ptr ≤ a ∧ a < ptr + count then data else mem a
  /-- The bytes are those of the source before the call, however the blocks overlap. -/
  copy : ∀ dest src count a,
    memCopy mem dest src count a =
      if dest ≤ a ∧ a < dest + count then mem (src + (a - dest)) else mem a
  /-- The first byte in which the blocks differ decides. -/
  cmp : ∀ s1 s2 n k, DifferAt mem s1 s2 n k →
    memCmp mem s1 s2 n = (mem (s1 + k)).toNat - (mem (s2 + k)).toNat
  cmp_zero : ∀ s1 s2 n, memCmp mem s1 s2 n = 0 ↔ ∀ i < n, mem (s1 + i) = mem (s2 + i)
  cmp_copy : ∀ dest src count, dest + count ≤ src ∨ src + count ≤ dest →
    memCmp (memCopy mem dest src count) dest src count = 0

/-- There is only one first byte in which the blocks differ. -/
theorem DifferAt.eq {mem : Bytes} {s1 s2 n k l : ℕ} (hk : DifferAt mem s1 s2 n k)
    (hl : DifferAt mem s1 s2 n l) : k = l := by
  rcases Nat.lt_trichotomy k l with h | h | h
  · exact absurd (hl.agree k h) hk.ne
  · exact h
  · exact absurd (hk.agree l h) hl.ne

/-- **Blocks are set, copied and compared as a whole**, for every length and every overlap. -/
theorem blockOps (mem : Bytes) : BlockOps mem where
  set ptr data count a := by
    rw [memSet_eq]
    rfl
  copy dest src count a := by
    rw [memCopy_eq]
    rfl
  cmp s1 s2 n k hk := by
    rcases memCmp_eq mem s1 s2 n with ⟨-, hall⟩ | ⟨l, hl, heq⟩
    · exact absurd (hall k hk.lt) hk.ne
    · rw [heq, hl.eq hk]
  cmp_zero s1 s2 n := memCmp_eq_zero_iff
  cmp_copy dest src count h := memCmp_memCopy h

end Fx3
end Usb3FpgaCard
