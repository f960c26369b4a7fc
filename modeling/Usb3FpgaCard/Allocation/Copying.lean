import Mathlib.Data.Nat.Notation
import Mathlib.Logic.Function.Basic

/-!
# Copying cells one by one

`n` cells are copied to another place of the same memory, where the two places may overlap.  Going
up, a cell is read before it is overwritten if the destination is not above the source, and going
down if it is not below.  Then the order does not show: what was in the source before is in the
destination afterwards (`copyUp_eq`, `copyDown_eq`).
-/

set_option autoImplicit false

namespace Allocation

variable {α : Type*}

/-- The cells are copied from the first to the last. -/
def copyUp (mem : ℕ → α) (dest src : ℕ) : ℕ → ℕ → α
  | 0 => mem
  | n + 1 => copyUp (Function.update mem dest (mem src)) (dest + 1) (src + 1) n

/-- The cells are copied from the last to the first. -/
def copyDown (mem : ℕ → α) (dest src : ℕ) : ℕ → ℕ → α
  | 0 => mem
  | n + 1 => copyDown (Function.update mem (dest + n) (mem (src + n))) dest src n

/-- All cells are copied at once. -/
def copied (mem : ℕ → α) (dest src n a : ℕ) : α :=
  if dest ≤ a ∧ a < dest + n then mem (src + (a - dest)) else mem a

variable {mem : ℕ → α} {dest src m n : ℕ}

theorem copied_of_mem {a : ℕ} (h : dest ≤ a ∧ a < dest + n) :
    copied mem dest src n a = mem (src + (a - dest)) := if_pos h

theorem copied_of_not_mem {a : ℕ} (h : ¬ (dest ≤ a ∧ a < dest + n)) :
    copied mem dest src n a = mem a := if_neg h

theorem copyUp_add :
    copyUp mem dest src (m + n) = copyUp (copyUp mem dest src m) (dest + m) (src + m) n := by
  induction m generalizing mem dest src with
  | zero => rw [Nat.zero_add]; rfl
  | succ m ih =>
    rw [show m + 1 + n = (m + n) + 1 by omega, copyUp, ih, copyUp]
    congr 1 <;> omega

theorem copyDown_add (mem : ℕ → α) (dest src m n : ℕ) :
    copyDown mem dest src (m + n) = copyDown (copyDown mem (dest + m) (src + m) n) dest src m := by
  induction n generalizing mem with
  | zero => rfl
  | succ n ih =>
    rw [show m + (n + 1) = (m + n) + 1 by omega, copyDown, ih, copyDown, Nat.add_assoc,
      Nat.add_assoc]

/-- **Going up is right if the destination is not above the source.** -/
theorem copyUp_eq (h : dest ≤ src) : copyUp mem dest src n = copied mem dest src n := by
  induction n generalizing mem dest src with
  | zero =>
    funext a
    exact (copied_of_not_mem (by omega)).symm
  | succ n ih =>
    rw [copyUp, ih (by omega)]
    funext a
    by_cases ha : dest + 1 ≤ a ∧ a < dest + 1 + n
    · rw [copied_of_mem ha, copied_of_mem (by omega), Function.update_of_ne (by omega)]
      congr 1
      omega
    · rw [copied_of_not_mem ha]
      by_cases hd : a = dest
      · rw [hd, Function.update_self, copied_of_mem (by omega), Nat.sub_self, Nat.add_zero]
      · rw [Function.update_of_ne hd, copied_of_not_mem (by omega)]

/-- **Going down is right if it is not below.** -/
theorem copyDown_eq (h : src ≤ dest) : copyDown mem dest src n = copied mem dest src n := by
  induction n generalizing mem with
  | zero =>
    funext a
    exact (copied_of_not_mem (by omega)).symm
  | succ n ih =>
    rw [copyDown, ih]
    funext a
    by_cases ha : dest ≤ a ∧ a < dest + n
    · rw [copied_of_mem ha, copied_of_mem (by omega), Function.update_of_ne (by omega)]
    · rw [copied_of_not_mem ha]
      by_cases hd : a = dest + n
      · rw [hd, Function.update_self, copied_of_mem (by omega), Nat.add_sub_cancel_left]
      · rw [Function.update_of_ne hd, copied_of_not_mem (by omega)]

end Allocation
