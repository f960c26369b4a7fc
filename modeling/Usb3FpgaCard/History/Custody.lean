import Usb3FpgaCard.History.Turns

/-!
# Resources in a history

Some entries of a history acquire a resource, some release one, and some only use what has been
acquired.  `Owns` says that this was done with care: nothing is acquired twice, and nothing used or
released that is not there; and it says which resources are left.  A history that leaves nothing can
be followed by another of that kind (`Owns.append`).
-/

set_option autoImplicit false

namespace History

/-- What the entries of a history do with resources. -/
structure Custody (α ρ : Type*) where
  acquires : α → ρ → Bool
  releases : α → ρ → Bool
  uses : α → ρ → Bool

namespace Custody

variable {α ρ : Type*} (C : Custody α ρ)

/-- The resource has been acquired and not released since. -/
def Owned (es : List α) (r : ρ) : Prop := Busy (fun e ↦ C.acquires e r) (fun e ↦ C.releases e r) es

/-- The entry handles its resources with care. -/
structure Careful (pre : List α) (e : α) : Prop where
  acquires : ∀ r, C.acquires e r = true → ¬ C.Owned pre r
  releases : ∀ r, C.releases e r = true → C.Owned pre r
  uses : ∀ r, C.uses e r = true → C.Owned pre r

/-- All entries were careful, and these resources are left. -/
structure Owns (es : List α) (S : ρ → Prop) : Prop where
  careful : Always C.Careful es
  owned : ∀ r, C.Owned es r ↔ S r

/-- With the resources `S` the entry is careful, and leaves `S'`. -/
structure Moves (S : ρ → Prop) (e : α) (S' : ρ → Prop) : Prop where
  acquires : ∀ r, C.acquires e r = true → ¬ S r
  releases : ∀ r, C.releases e r = true → S r
  uses : ∀ r, C.uses e r = true → S r
  leaves : ∀ r, S' r ↔ C.acquires e r = true ∨ (S r ∧ C.releases e r = false)

variable {C} {es es' : List α} {e : α} {S S' : ρ → Prop} {r : ρ}

theorem not_owned_nil (C : Custody α ρ) (r : ρ) : ¬ C.Owned [] r := by
  rw [Owned, Busy]
  exact not_since_nil

theorem owned_concat :
    C.Owned (es ++ [e]) r ↔ C.acquires e r = true ∨ (C.Owned es r ∧ C.releases e r = false) :=
  busy_concat

/-- An entry that acquires and releases nothing. -/
theorem Moves.of_uses (h : ∀ r, C.acquires e r = false ∧ C.releases e r = false)
    (huses : ∀ r, C.uses e r = true → S r) : C.Moves S e S where
  acquires r hr := absurd hr (by rw [(h r).1]; exact Bool.false_ne_true)
  releases r hr := absurd hr (by rw [(h r).2]; exact Bool.false_ne_true)
  uses := huses
  leaves r := by rw [(h r).1, (h r).2]; simp

theorem owns_nil : C.Owns [] fun _ ↦ False :=
  ⟨always_nil, fun r ↦ iff_of_false (not_owned_nil C r) id⟩

theorem Owns.congr (h : C.Owns es S) (hS : ∀ r, S r ↔ S' r) : C.Owns es S' :=
  ⟨h.careful, fun r ↦ (h.owned r).trans (hS r)⟩

/-- One more entry. -/
theorem Owns.concat (h : C.Owns es S) (he : C.Moves S e S') : C.Owns (es ++ [e]) S' where
  careful := always_concat.mpr ⟨h.careful, fun r hr ↦ (h.owned r).not.mpr (he.acquires r hr),
    fun r hr ↦ (h.owned r).mpr (he.releases r hr), fun r hr ↦ (h.owned r).mpr (he.uses r hr)⟩
  owned r := by rw [owned_concat, h.owned, he.leaves]

/-- Some entries that leave what there is. -/
theorem Owns.uses (h : C.Owns es S) (hes : ∀ e ∈ es', C.Moves S e S) : C.Owns (es ++ es') S := by
  induction es' using List.reverseRecOn with
  | nil => rwa [List.append_nil]
  | append_singleton es' e ih =>
    rw [← List.append_assoc]
    exact (ih fun x hx ↦ hes x (List.mem_append_left _ hx)).concat
      (hes e (List.mem_append_right _ (List.mem_singleton_self e)))

/-- A loop of entries. -/
theorem Owns.loop {f : ℕ → α} {S : ℕ → ρ → Prop} {n : ℕ} (h : C.Owns es (S 0))
    (hf : ∀ i, i < n → C.Moves (S i) (f i) (S (i + 1))) :
    C.Owns (es ++ (List.range n).map f) (S n) := by
  induction n with
  | zero => rwa [List.range_zero, List.map_nil, List.append_nil]
  | succ n ih =>
    rw [List.range_succ, List.map_append, ← List.append_assoc]
    exact (ih fun i hi ↦ hf i (Nat.lt_succ_of_lt hi)).concat (hf n (Nat.lt_succ_self n))

/-- **What leaves nothing can be followed by anything.** -/
theorem Owns.append (h : C.Owns es fun _ ↦ False) (h' : C.Owns es' S) : C.Owns (es ++ es') S := by
  have howned : ∀ mid r, C.Owned (es ++ mid) r ↔ C.Owned mid r := by
    intro mid r
    induction mid using List.reverseRecOn with
    | nil =>
      rw [List.append_nil]
      exact iff_of_false ((h.owned r).not.mpr id) (not_owned_nil C r)
    | append_singleton mid e ih => rw [← List.append_assoc, owned_concat, owned_concat, ih]
  refine ⟨always_append.mpr ⟨h.careful, h'.careful.mono fun mid e he ↦ ?_⟩, fun r ↦ ?_⟩
  · exact ⟨fun r hr ↦ (howned mid r).not.mpr (he.acquires r hr),
      fun r hr ↦ (howned mid r).mpr (he.releases r hr),
      fun r hr ↦ (howned mid r).mpr (he.uses r hr)⟩
  · rw [howned, h'.owned]

end Custody
end History
