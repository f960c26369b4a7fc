import Mathlib.Data.List.Basic
import Mathlib.Data.List.Infix

/-!
# Records in a stream

A record ends with a separator that does not occur in it.  `records` are those that have ended, so a
reader who has seen the stream only up to some place knows the first of all records
(`prefix_records`), and the records written come back as they were (`records_flatMap`).

`everySecond` are the items at the even places, for streams in which two kinds of items take turns.
-/

set_option autoImplicit false

namespace Channels

variable {α β : Type*}

/-! ## Records -/

section records

variable [DecidableEq α] {sep a : α} {s t x : List α}

/-- The records that have ended. -/
def records (sep : α) (t : List α) : List (List α) := (t.splitOn sep).dropLast

theorem dropLast_modifyHead (f : β → β) (l : List β) :
    (l.modifyHead f).dropLast = l.dropLast.modifyHead f := by
  match l with
  | [] => rfl
  | [_] => rfl
  | _ :: _ :: _ => rfl

theorem records_cons (sep a : α) (t : List α) :
    records sep (a :: t) =
      if a = sep then [] :: records sep t else (records sep t).modifyHead (a :: ·) := by
  rw [records, List.splitOn_cons_eq_if_modifyHead]
  split
  case isTrue h =>
    rw [if_pos (beq_iff_eq.mp h), List.dropLast_cons_of_ne_nil (List.splitOn_ne_nil _ _)]
    rfl
  case isFalse h =>
    rw [if_neg fun ha ↦ h (beq_iff_eq.mpr ha), dropLast_modifyHead]
    rfl

/-- **A record** at the beginning. -/
theorem records_append (h : sep ∉ x) (t : List α) :
    records sep (x ++ sep :: t) = x :: records sep t := by
  rw [records, List.splitOn_append_cons_self_of_not_mem h,
    List.dropLast_cons_of_ne_nil (List.splitOn_ne_nil _ _)]
  rfl

/-- **What has been written comes back.** -/
theorem records_flatMap {f : β → List α} {l : List β} (h : ∀ v ∈ l, sep ∉ f v) :
    records sep (l.flatMap fun v ↦ f v ++ [sep]) = l.map f := by
  induction l with
  | nil => rfl
  | cons v l ih =>
    obtain ⟨hv, hl⟩ := List.forall_mem_cons.mp h
    rw [List.flatMap_cons, List.append_assoc, List.singleton_append, records_append hv, ih hl,
      List.map_cons]

theorem prefix_modifyHead (f : β → β) {l l' : List β} (h : l <+: l') :
    l.modifyHead f <+: l'.modifyHead f := by
  obtain ⟨r, rfl⟩ := h
  cases l with
  | nil => exact List.nil_prefix
  | cons x l => exact List.prefix_append (f x :: l) r

/-- **The beginning of a stream** has the first of its records. -/
theorem prefix_records (sep : α) (h : s <+: t) : records sep s <+: records sep t := by
  induction s generalizing t with
  | nil => exact List.nil_prefix
  | cons a s ih =>
    obtain ⟨r, rfl⟩ := h
    have hs : records sep s <+: records sep (s ++ r) := ih (List.prefix_append s r)
    rw [List.cons_append, records_cons, records_cons]
    split
    · exact List.prefix_cons_inj [] |>.mpr hs
    · exact prefix_modifyHead _ hs

end records

/-! ## Items that take turns -/

/-- The items at the even places. -/
def everySecond : List α → List α
  | [] => []
  | [a] => [a]
  | a :: _ :: l => a :: everySecond l

/-- One more item. -/
theorem everySecond_concat (l : List α) (a : α) :
    everySecond (l ++ [a]) = if l.length % 2 = 0 then everySecond l ++ [a] else everySecond l := by
  fun_induction everySecond l with
  | case1 => rfl
  | case2 => rfl
  | case3 b c l ih =>
    rw [List.cons_append, List.cons_append, everySecond, ih, List.length_cons, List.length_cons,
      Nat.add_assoc, Nat.add_mod_right]
    split <;> rfl

theorem prefix_everySecond {l l' : List α} (h : l <+: l') : everySecond l <+: everySecond l' := by
  obtain ⟨r, rfl⟩ := h
  induction r using List.reverseRecOn with
  | nil => rw [List.append_nil]
  | append_singleton r a ih =>
    rw [← List.append_assoc, everySecond_concat]
    split
    · exact ih.trans (List.prefix_append _ _)
    · exact ih

end Channels
