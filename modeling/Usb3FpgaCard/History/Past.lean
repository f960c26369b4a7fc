import Mathlib.Data.List.Induction

/-!
# Histories

A history is the list of what has happened so far, the latest last.  A condition on one of its
entries may look at the entries before it, so it is a relation between a history and an entry, and
`Always`, `Once` and `Since` are the temporal operators of the past over such conditions.  Each is
determined by what one more entry does to it (`always_concat`, `once_concat`, `since_concat`), so a
system that takes step after step is compared with them by induction from the end of the history.
-/

set_option autoImplicit false

namespace History

variable {α : Type*} {P P' Q : List α → α → Prop} {es es' : List α} {e : α}

/-- Every entry meets the condition. -/
def Always (P : List α → α → Prop) (es : List α) : Prop :=
  ∀ pre e post, es = pre ++ e :: post → P pre e

/-- Some entry has met the condition. -/
def Once (Q : List α → α → Prop) (es : List α) : Prop :=
  ∃ pre e post, es = pre ++ e :: post ∧ Q pre e

/-- Some entry has met the condition `Q`, and all entries after it the condition `P`. -/
def Since (P Q : List α → α → Prop) (es : List α) : Prop :=
  ∃ pre e post, es = pre ++ e :: post ∧ Q pre e ∧ Always (fun mid ↦ P (pre ++ e :: mid)) post

/-- A history that ends with an entry, split at an entry: at the end or before it. -/
theorem concat_eq_append_cons {pre post : List α} {x : α} (h : es ++ [e] = pre ++ x :: post) :
    (pre = es ∧ x = e ∧ post = []) ∨ ∃ post', post = post' ++ [e] ∧ es = pre ++ x :: post' := by
  rcases List.eq_nil_or_concat post with rfl | ⟨post', y, rfl⟩
  · obtain ⟨h1, h2⟩ := List.append_inj' h rfl
    exact .inl ⟨h1.symm, (List.head_eq_of_cons_eq h2).symm, rfl⟩
  · rw [List.concat_eq_append, ← List.cons_append, ← List.append_assoc] at h
    obtain ⟨h1, h2⟩ := List.append_inj' h rfl
    refine .inr ⟨post', ?_, h1⟩
    rw [List.concat_eq_append, h2]

/-! ## Always -/

theorem always_nil : Always P [] := fun pre e post h ↦ by
  cases pre <;> exact absurd h (List.cons_ne_nil _ _).symm

/-- One more entry. -/
theorem always_concat : Always P (es ++ [e]) ↔ Always P es ∧ P es e := by
  constructor
  · intro h
    refine ⟨fun pre x post heq ↦ h pre x (post ++ [e]) ?_, h es e [] rfl⟩
    rw [heq, List.append_assoc, List.cons_append]
  · rintro ⟨h, he⟩ pre x post heq
    rcases concat_eq_append_cons heq with ⟨rfl, rfl, -⟩ | ⟨post', -, rfl⟩
    · exact he
    · exact h pre x post' rfl

/-- **A property of histories** is an `Always` if it says of one more entry what that says. -/
theorem iff_always {A : List α → Prop} (hnil : A [])
    (hconcat : ∀ es e, A (es ++ [e]) ↔ A es ∧ P es e) : A es ↔ Always P es := by
  induction es using List.reverseRecOn with
  | nil => exact iff_of_true hnil always_nil
  | append_singleton es e ih => rw [hconcat, always_concat, ih]

theorem always_append :
    Always P (es ++ es') ↔ Always P es ∧ Always (fun mid ↦ P (es ++ mid)) es' := by
  induction es' using List.reverseRecOn with
  | nil => simp [always_nil]
  | append_singleton es' e ih =>
    rw [← List.append_assoc, always_concat, ih, always_concat, and_assoc]

theorem Always.mono (h : Always P es) (hP : ∀ pre e, P pre e → P' pre e) : Always P' es :=
  fun pre e post heq ↦ hP pre e (h pre e post heq)

/-- A condition that holds of its entries whatever was before. -/
theorem Always.of_forall (h : ∀ e ∈ es, ∀ pre, P pre e) : Always P es :=
  fun pre e _ heq ↦ h e (heq ▸ List.mem_append_right pre List.mem_cons_self) pre

/-! ## Once -/

theorem not_once_nil : ¬ Once Q [] := fun ⟨pre, e, post, h, _⟩ ↦ by
  cases pre <;> exact absurd h (List.cons_ne_nil _ _).symm

/-- One more entry. -/
theorem once_concat : Once Q (es ++ [e]) ↔ Once Q es ∨ Q es e := by
  constructor
  · rintro ⟨pre, x, post, heq, hx⟩
    rcases concat_eq_append_cons heq with ⟨rfl, rfl, -⟩ | ⟨post', -, rfl⟩
    · exact .inr hx
    · exact .inl ⟨pre, x, post', rfl, hx⟩
  · rintro (⟨pre, x, post, rfl, hx⟩ | he)
    · exact ⟨pre, x, post ++ [e], by rw [List.append_assoc, List.cons_append], hx⟩
    · exact ⟨es, e, [], rfl, he⟩

theorem once_const {q : α → Prop} : Once (fun _ ↦ q) es ↔ ∃ e ∈ es, q e := by
  induction es using List.reverseRecOn with
  | nil => simp [not_once_nil]
  | append_singleton es e ih => rw [once_concat, ih]; simp [or_and_right, exists_or]

/-! ## Since -/

/-- What has held since an entry has been met once. -/
theorem Since.once : Since P Q es → Once Q es :=
  fun ⟨pre, e, post, h, hQ, _⟩ ↦ ⟨pre, e, post, h, hQ⟩

theorem not_since_nil : ¬ Since P Q [] := fun h ↦ not_once_nil h.once

/-- One more entry. -/
theorem since_concat : Since P Q (es ++ [e]) ↔ Q es e ∨ (Since P Q es ∧ P es e) := by
  constructor
  · rintro ⟨pre, x, post, heq, hx, hpost⟩
    rcases concat_eq_append_cons heq with ⟨rfl, rfl, -⟩ | ⟨post', rfl, rfl⟩
    · exact .inl hx
    · obtain ⟨hpost', he⟩ := always_concat.mp hpost
      exact .inr ⟨⟨pre, x, post', rfl, hx, hpost'⟩, he⟩
  · rintro (he | ⟨⟨pre, x, post, rfl, hx, hpost⟩, he⟩)
    · exact ⟨es, e, [], rfl, he, always_nil⟩
    · refine ⟨pre, x, post ++ [e], by rw [List.append_assoc, List.cons_append], hx, ?_⟩
      exact always_concat.mpr ⟨hpost, he⟩

end History
