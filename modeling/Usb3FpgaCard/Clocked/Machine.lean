import Mathlib.Algebra.Group.Nat.Defs
import Mathlib.Data.Nat.Notation

/-!
# Clocked machines

A synchronous circuit is a reset state and a function that gives the state after a clock edge from
the state before it and the inputs of the cycle that ends there.  `Machine.run` is its state in
cycle `t`, counted from the release of reset, under an infinite input sequence; a property of
"every run from reset" is a property of `M.run inp t` for all `inp` and `t`.

`Machine.run_congr` says that a run up to cycle `t` depends on the inputs before cycle `t` alone,
and `Machine.run_proj` that a machine that is part of another runs there as it does alone.
-/

set_option autoImplicit false

namespace Clocked

variable {S I J : Type*}

/-- A synchronous machine: one state update per clock edge. -/
structure Machine (S I : Type*) where
  /-- The state while reset is active, and in cycle 0. -/
  reset : S
  /-- The state after the clock edge that ends a cycle with these inputs. -/
  edge : S → I → S

namespace Machine

variable (M : Machine S I)

/-- The state in cycle `t`. -/
def run (inp : ℕ → I) : ℕ → S
  | 0 => M.reset
  | t + 1 => M.edge (run inp t) (inp t)

theorem run_succ (inp : ℕ → I) (t : ℕ) : M.run inp (t + 1) = M.edge (M.run inp t) (inp t) := rfl

variable {M}

/-- A run up to cycle `t` reads only the inputs before cycle `t`. -/
theorem run_congr {inp inp' : ℕ → I} {t : ℕ} (h : ∀ u, u < t → inp u = inp' u) :
    M.run inp t = M.run inp' t := by
  induction t with
  | zero => rfl
  | succ t ih =>
    rw [run_succ, run_succ, ih fun u hu ↦ h u (Nat.lt_succ_of_lt hu), h t (Nat.lt_succ_self t)]

/-- **Projection of a run.**  When a machine `N` contains `M` as a component, fed in every state
of `N` by inputs computed there, the component of a run of `N` is a run of `M`. -/
theorem run_proj {T : Type*} {N : Machine T J} (π : T → S) (feed : T → J → I)
    (h0 : π N.reset = M.reset) (hedge : ∀ s j, π (N.edge s j) = M.edge (π s) (feed s j))
    (inp : ℕ → J) (t : ℕ) :
    π (N.run inp t) = M.run (fun u ↦ feed (N.run inp u) (inp u)) t := by
  induction t with
  | zero => exact h0
  | succ t ih => rw [run_succ, run_succ, hedge, ih]

end Machine

end Clocked
