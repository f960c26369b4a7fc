import Usb3FpgaCard.History.Past

/-!
# Begun and finished by turns

Some entries of a history begin something and some finish it.  `Busy` says that what was begun last
has not been finished, and `ByTurns` that nothing is begun while another is, and nothing finished
that was not begun.  If in the end nothing is left, then everything that was begun has been finished
exactly once (`ByTurns.finishCount_eq_one`).
-/

set_option autoImplicit false

namespace History

variable {α : Type*} {b f : α → Bool} {es pre post : List α} {e : α}

/-- Something has been begun and not finished since. -/
def Busy (b f : α → Bool) (es : List α) : Prop :=
  Since (fun _ e ↦ f e = false) (fun _ e ↦ b e = true) es

/-- The two kinds of entry take turns. -/
structure ByTurns (b f : α → Bool) (es : List α) : Prop where
  /-- Nothing is begun while another is going on, -/
  begins : Always (fun pre e ↦ b e = true → ¬ Busy b f pre) es
  /-- and only what was begun is finished. -/
  finishes : Always (fun pre e ↦ f e = true → Busy b f pre) es

/-- How often something is finished before the next is begun. -/
def finishCount (b f : α → Bool) (post : List α) : ℕ :=
  (post.takeWhile fun e ↦ !b e).countP f

theorem Busy.exists_begin (h : Busy b f es) : ∃ e ∈ es, b e = true := once_const.mp (Since.once h)

/-- One more entry. -/
theorem busy_concat : Busy b f (es ++ [e]) ↔ b e = true ∨ (Busy b f es ∧ f e = false) :=
  since_concat

/-- An entry of neither kind. -/
theorem busy_concat_of_neither (hb : b e = false) (hf : f e = false) :
    Busy b f (es ++ [e]) ↔ Busy b f es := by
  simp [busy_concat, hb, hf]

/-- What is going on will be finished once, and what is not begun not at all. -/
theorem ByTurns.finishCount_eq (h : ByTurns b f (es ++ post)) (hend : ¬ Busy b f (es ++ post)) :
    (Busy b f es → finishCount b f post = 1) ∧ (¬ Busy b f es → finishCount b f post = 0) := by
  induction post generalizing es with
  | nil =>
    rw [List.append_nil] at hend
    exact ⟨fun hbusy ↦ absurd hbusy hend, fun _ ↦ rfl⟩
  | cons e post ih =>
    have hassoc : es ++ e :: post = (es ++ [e]) ++ post := by rw [List.append_assoc]; rfl
    obtain ⟨ih₁, ih₂⟩ := ih (hassoc ▸ h) (hassoc ▸ hend)
    cases hb : b e with
    | true =>
      refine ⟨fun hbusy ↦ absurd hbusy (h.begins es e post rfl hb), fun _ ↦ ?_⟩
      rw [finishCount, List.takeWhile_cons_of_neg (by rw [hb]; exact Bool.false_ne_true)]
      rfl
    | false =>
      have hcount : finishCount b f (e :: post) = finishCount b f post + if f e then 1 else 0 := by
        rw [finishCount, List.takeWhile_cons_of_pos (by rw [hb]; rfl), List.countP_cons,
          finishCount]
      rw [hcount]
      cases hf : f e with
      | true =>
        have hbusy := h.finishes es e post rfl hf
        have hafter : ¬ Busy b f (es ++ [e]) := by simp [busy_concat, hb, hf]
        exact ⟨fun _ ↦ congrArg (· + 1) (ih₂ hafter), fun hn ↦ absurd hbusy hn⟩
      | false =>
        rw [busy_concat_of_neither hb hf] at ih₁ ih₂
        exact ⟨ih₁, ih₂⟩

/-- **Everything that was begun is finished once**, if nothing is left in the end. -/
theorem ByTurns.finishCount_eq_one (h : ByTurns b f (pre ++ e :: post))
    (hend : ¬ Busy b f (pre ++ e :: post)) (hb : b e = true) : finishCount b f post = 1 := by
  have hassoc : pre ++ e :: post = (pre ++ [e]) ++ post := by rw [List.append_assoc]; rfl
  rw [hassoc] at h hend
  exact (h.finishCount_eq hend).1 (busy_concat.mpr (.inl hb))

end History
