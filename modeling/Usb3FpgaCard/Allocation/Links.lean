import Mathlib.Data.List.Basic
import Mathlib.Logic.Function.Basic

/-!
# Doubly linked lists

The items of a list point to each other: `prev` to the item that was put in before, `next` to the
one that was put in after, and `head` to the last one put in; `null` stands for no item.  A new item
is put in at the head (`Links.push`), and an item can be taken out wherever it stands
(`Links.drop`).

`Lists` says that the pointers hold a list, the newest item first.  It is kept by both operations
(`Lists.push`, `Lists.drop`), and it only depends on the pointers of its own items
(`Lists.congr`), so whatever else is written, they find each other.
-/

set_option autoImplicit false

namespace Allocation

/-- The pointers of a doubly linked list. -/
structure Links (α : Type*) where
  head : α
  prev : α → α
  next : α → α

namespace Links

variable {α : Type*}

/-! ## The list that the pointers hold -/

/-- From the pointer `h` on the items are `l`, and `a` comes before them. -/
def Chain (s : Links α) (null : α) : (a : α) → (l : List α) → (h : α) → Prop
  | _, [], h => h = null
  | a, x :: l, h => h = x ∧ s.next x = a ∧ s.Chain null x l (s.prev x)

/-- The pointers hold the list `l`. -/
structure Lists (s : Links α) (null : α) (l : List α) : Prop where
  chain : s.Chain null null l s.head
  nodup : l.Nodup
  null_notMem : null ∉ l

variable {s s' : Links α} {null a h x : α} {l : List α}

theorem Chain.congr (hc : s.Chain null a l h) (hprev : ∀ x ∈ l, s'.prev x = s.prev x)
    (hnext : ∀ x ∈ l, s'.next x = s.next x) : s'.Chain null a l h := by
  induction l generalizing a h with
  | nil => exact hc
  | cons x l ih =>
    obtain ⟨rfl, hn, hl⟩ := hc
    refine ⟨rfl, (hnext h List.mem_cons_self).trans hn, ?_⟩
    rw [hprev h List.mem_cons_self]
    exact ih hl (fun y hy ↦ hprev y (List.mem_cons_of_mem _ hy))
      fun y hy ↦ hnext y (List.mem_cons_of_mem _ hy)

theorem Lists.congr (hl : s.Lists null l) (hhead : s'.head = s.head)
    (hprev : ∀ x ∈ l, s'.prev x = s.prev x) (hnext : ∀ x ∈ l, s'.next x = s.next x) :
    s'.Lists null l :=
  ⟨hhead ▸ hl.chain.congr hprev hnext, hl.nodup, hl.null_notMem⟩

/-- The pointer from an item leads to one that stands after it. -/
theorem Chain.prev_mem (hc : s.Chain null a l h) (hx : x ∈ l) :
    s.prev x = null ∨ s.prev x ∈ l.tail := by
  induction l generalizing a h with
  | nil => exact absurd hx List.not_mem_nil
  | cons y l ih =>
    obtain ⟨-, -, hl⟩ := hc
    rcases List.mem_cons.mp hx with rfl | hx
    · cases l with
      | nil => exact Or.inl hl
      | cons z l => exact Or.inr (hl.1 ▸ List.mem_cons_self)
    · exact (ih hl hx).imp_right List.mem_of_mem_tail

/-- The first item points back to what comes before the list, -/
theorem Chain.next_head (hc : s.Chain null a l h) (hx : x ∈ l) (hh : h = x) : s.next x = a := by
  cases l with
  | nil => exact absurd hx List.not_mem_nil
  | cons y l =>
    obtain ⟨rfl, hn, -⟩ := hc
    rw [← hh, hn]

/-- and every other one to an item. -/
theorem Chain.next_mem (hc : s.Chain null a l h) (hx : x ∈ l) (hh : h ≠ x) : s.next x ∈ l := by
  induction l generalizing a h with
  | nil => exact absurd hx List.not_mem_nil
  | cons y l ih =>
    obtain ⟨rfl, -, hl⟩ := hc
    have hxl : x ∈ l := (List.mem_cons.mp hx).resolve_left (Ne.symm hh)
    by_cases hp : s.prev h = x
    · rw [hl.next_head hxl hp]
      exact List.mem_cons_self
    · exact List.mem_cons_of_mem _ (ih hl hxl hp)

theorem Chain.prev_ne (hc : s.Chain null a l h) (hnd : l.Nodup) (hnull : null ∉ l) (hx : x ∈ l) :
    s.prev x ≠ x := by
  induction l generalizing a h with
  | nil => exact absurd hx List.not_mem_nil
  | cons y l ih =>
    rw [List.nodup_cons] at hnd
    rcases List.mem_cons.mp hx with rfl | hxl
    · intro he
      rcases hc.prev_mem hx with hp | hp
      · exact hnull (hp.symm.trans he ▸ List.mem_cons_self)
      · exact hnd.1 (by rwa [he] at hp)
    · exact ih hc.2.2 hnd.2 (fun hm ↦ hnull (List.mem_cons_of_mem _ hm)) hxl

theorem Chain.next_ne (hc : s.Chain null a l h) (hnd : l.Nodup) (ha : a ∉ l) (hx : x ∈ l) :
    s.next x ≠ x := by
  induction l generalizing a h with
  | nil => exact absurd hx List.not_mem_nil
  | cons y l ih =>
    obtain ⟨rfl, hn, hl⟩ := hc
    rw [List.nodup_cons] at hnd
    rcases List.mem_cons.mp hx with rfl | hxl
    · exact fun he ↦ ha (hn.symm.trans he ▸ List.mem_cons_self)
    · exact ih hl hnd.2 hnd.1 hxl

/-- No item points to itself. -/
theorem Lists.prev_ne (hl : s.Lists null l) (hx : x ∈ l) : s.prev x ≠ x :=
  hl.chain.prev_ne hl.nodup hl.null_notMem hx

theorem Lists.next_ne (hl : s.Lists null l) (hx : x ∈ l) : s.next x ≠ x :=
  hl.chain.next_ne hl.nodup hl.null_notMem hx

theorem Lists.next_mem (hl : s.Lists null l) (hx : x ∈ l) : s.next x = null ∨ s.next x ∈ l := by
  by_cases hh : s.head = x
  · exact Or.inl (hl.chain.next_head hx hh)
  · exact Or.inr (hl.chain.next_mem hx hh)

theorem Lists.prev_mem (hl : s.Lists null l) (hx : x ∈ l) : s.prev x = null ∨ s.prev x ∈ l :=
  (hl.chain.prev_mem hx).imp_right List.mem_of_mem_tail

theorem Lists.head_mem (hl : s.Lists null l) : s.head = null ∨ s.head ∈ l := by
  have hc := hl.chain
  cases l with
  | nil => exact Or.inl hc
  | cons x l => exact Or.inr (hc.1 ▸ List.mem_cons_self)

/-- An item that no other is mapped to the image of can be taken out before or after. -/
theorem map_erase_of_inj {β : Type*} [DecidableEq α] [DecidableEq β] {f : α → β}
    (hf : ∀ y ∈ l, f y = f x → y = x) : (l.erase x).map f = (l.map f).erase (f x) := by
  induction l with
  | nil => rfl
  | cons y l ih =>
    by_cases hy : y = x
    · rw [hy, List.erase_cons_head, List.map_cons, List.erase_cons_head]
    · have hne : f y ≠ f x := fun he ↦ hy (hf y List.mem_cons_self he)
      rw [List.erase_cons_tail (by simpa using hy), List.map_cons, List.map_cons,
        List.erase_cons_tail (by simpa using hne), ih fun z hz ↦ hf z (List.mem_cons_of_mem _ hz)]

/-! ## Putting in and taking out -/

variable [DecidableEq α]

variable (null) in
/-- The item `x` is put in. -/
def push (s : Links α) (x : α) : Links α where
  head := x
  prev := Function.update s.prev x s.head
  next :=
    let next := Function.update s.next x null
    if s.head = null then next else Function.update next s.head x

variable (null) in
/-- The item `x` is taken out. -/
def drop (s : Links α) (x : α) : Links α where
  head := if s.head = x then s.prev x else s.head
  prev := if s.next x = null then s.prev else Function.update s.prev (s.next x) (s.prev x)
  next := if s.prev x = null then s.next else Function.update s.next (s.prev x) (s.next x)

theorem prev_push_self : (s.push null x).prev x = s.head := Function.update_self _ _ _

theorem prev_push_of_ne {y : α} (hy : y ≠ x) : (s.push null x).prev y = s.prev y :=
  Function.update_of_ne hy _ _

theorem next_push_self (hx : s.head ≠ x) : (s.push null x).next x = null := by
  unfold push
  dsimp only
  split
  · exact Function.update_self _ _ _
  · rw [Function.update_of_ne (Ne.symm hx), Function.update_self]

theorem next_push_head (hh : s.head ≠ null) : (s.push null x).next s.head = x := by
  rw [push]
  dsimp only
  rw [if_neg hh, Function.update_self]

theorem next_push_of_ne {y : α} (hy : y ≠ x) (hh : y ≠ s.head) :
    (s.push null x).next y = s.next y := by
  unfold push
  dsimp only
  split
  · exact Function.update_of_ne hy _ _
  · rw [Function.update_of_ne hh, Function.update_of_ne hy]

theorem prev_drop_of_ne {y : α} (hy : y ≠ s.next x) : (s.drop null x).prev y = s.prev y := by
  unfold drop
  dsimp only
  split
  · rfl
  · exact Function.update_of_ne hy _ _

theorem next_drop_of_ne {y : α} (hy : y ≠ s.prev x) : (s.drop null x).next y = s.next y := by
  unfold drop
  dsimp only
  split
  · rfl
  · exact Function.update_of_ne hy _ _

theorem prev_drop_next (hn : s.next x ≠ null) : (s.drop null x).prev (s.next x) = s.prev x := by
  rw [drop]
  dsimp only
  rw [if_neg hn, Function.update_self]

theorem next_drop_prev (hp : s.prev x ≠ null) : (s.drop null x).next (s.prev x) = s.next x := by
  rw [drop]
  dsimp only
  rw [if_neg hp, Function.update_self]

/-- **An item that is put in becomes the first.** -/
theorem Lists.push (hl : s.Lists null l) (hx : x ∉ l) (hnull : x ≠ null) :
    (s.push null x).Lists null (x :: l) := by
  have hne : ∀ y ∈ l, y ≠ x := fun y hy hyx ↦ hx (hyx ▸ hy)
  have hhead : s.head ≠ x := by
    rcases hl.head_mem with h | h
    · exact fun he ↦ hnull (he.symm.trans h)
    · exact hne _ h
  refine ⟨⟨rfl, next_push_self hhead, ?_⟩, List.nodup_cons.mpr ⟨hx, hl.nodup⟩, fun hmem ↦ ?_⟩
  · rw [prev_push_self]
    have hc := hl.chain
    cases l with
    | nil => exact hc
    | cons z l =>
      obtain ⟨hz, -, hrest⟩ := hc
      have hznull : s.head ≠ null := fun h ↦ hl.null_notMem (h ▸ hz ▸ List.mem_cons_self)
      have hnd := List.nodup_cons.mp hl.nodup
      refine ⟨hz, hz ▸ next_push_head hznull, ?_⟩
      rw [prev_push_of_ne (hne z List.mem_cons_self)]
      refine hrest.congr (fun y hy ↦ prev_push_of_ne (hne y (List.mem_cons_of_mem _ hy)))
        fun y hy ↦ next_push_of_ne (hne y (List.mem_cons_of_mem _ hy)) ?_
      rintro rfl
      exact hnd.1 (hz ▸ hy)
  · rcases List.mem_cons.mp hmem with h | h
    · exact hnull h.symm
    · exact hl.null_notMem h

theorem Chain.drop (hc : s.Chain null a l h) (hnd : l.Nodup) (ha : a ∉ l) (hnull : null ∉ l)
    (hx : x ∈ l) :
    (s.drop null x).Chain null a (l.erase x) (if h = x then s.prev x else h) := by
  induction l generalizing a h with
  | nil => exact absurd hx List.not_mem_nil
  | cons y l ih =>
    obtain ⟨rfl, hn, hl⟩ := hc
    rw [List.nodup_cons] at hnd
    have hnull' : null ∉ l := fun hm ↦ hnull (List.mem_cons_of_mem _ hm)
    by_cases hh : h = x
    · -- the item after `x` points back to what comes before `x`
      subst hh
      rw [if_pos rfl, List.erase_cons_head]
      cases l with
      | nil => exact hl
      | cons z l =>
        obtain ⟨hz, -, hrest⟩ := hl
        have hznull : s.prev h ≠ null := fun he ↦ hnull' (he ▸ hz ▸ List.mem_cons_self)
        have haz : ∀ w ∈ z :: l, w ≠ s.next h := fun w hw he ↦
          ha (List.mem_cons_of_mem _ (hn ▸ he ▸ hw))
        refine ⟨hz, by rw [← hz, next_drop_prev hznull, hn], ?_⟩
        rw [prev_drop_of_ne (haz z List.mem_cons_self)]
        refine hrest.congr (fun w hw ↦ prev_drop_of_ne (haz w (List.mem_cons_of_mem _ hw)))
          fun w hw ↦ next_drop_of_ne ?_
        rintro rfl
        exact (List.nodup_cons.mp hnd.2).1 (hz ▸ hw)
    · have hxl : x ∈ l := (List.mem_cons.mp hx).resolve_left (Ne.symm hh)
      rw [if_neg hh, List.erase_cons_tail (by simpa using hh)]
      refine ⟨rfl, ?_, ?_⟩
      · rw [next_drop_of_ne, hn]
        intro he
        rcases hl.prev_mem hxl with hp | hp
        · exact hnull (hp ▸ he ▸ List.mem_cons_self)
        · exact hnd.1 (he ▸ List.mem_of_mem_tail hp)
      · have hrest := ih hl hnd.2 hnd.1 hnull' hxl
        by_cases hp : s.prev h = x
        · have hback : s.next x = h := hl.next_head hxl hp
          have hne : s.next x ≠ null := fun he ↦ hnull (he ▸ hback ▸ List.mem_cons_self)
          rw [if_pos hp] at hrest
          rwa [← prev_drop_next hne, hback] at hrest
        · rw [if_neg hp] at hrest
          have hne : h ≠ s.next x := fun he ↦ hnd.1 (he ▸ hl.next_mem hxl hp)
          rwa [prev_drop_of_ne hne]

/-- **An item is taken out, and the others keep their order.** -/
theorem Lists.drop (hl : s.Lists null l) (hx : x ∈ l) :
    (s.drop null x).Lists null (l.erase x) :=
  ⟨hl.chain.drop hl.nodup hl.null_notMem hl.null_notMem hx, hl.nodup.erase x,
    fun h ↦ hl.null_notMem (List.mem_of_mem_erase h)⟩

end Links

end Allocation
