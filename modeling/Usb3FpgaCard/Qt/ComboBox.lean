import Mathlib.Data.List.GetD
import Usb3FpgaCard.Qt.Text

/-!
# Combo boxes: `QComboBox`

A combo box has items, and one of them may be the current one; `none` is the index -1.  The first
item of an empty box becomes the current one by itself.  `currentIndexChanged` is emitted by a call
exactly if the index after it is another than before.
-/

set_option autoImplicit false

namespace Qt

/-- A `QComboBox`. -/
structure ComboBox where
  items : List Text
  index : Option ℕ
  /-- The current item exists. -/
  index_lt : ∀ i, index = some i → i < items.length

namespace ComboBox

/-- The box without items, and `QComboBox::clear`. -/
def empty : ComboBox := ⟨[], none, nofun⟩

/-- `QComboBox::addItem`, and `insertItem` at the end. -/
def addItem (b : ComboBox) (t : Text) : ComboBox where
  items := b.items ++ [t]
  index := if b.items = [] then some 0 else b.index
  index_lt i hi := by
    rw [List.length_append, List.length_singleton]
    split at hi
    · cases hi
      exact Nat.zero_lt_succ _
    · exact Nat.lt_succ_of_lt (b.index_lt i hi)

/-- `QComboBox::setCurrentIndex`. -/
def setCurrentIndex (b : ComboBox) (i : ℕ) : ComboBox :=
  if h : i < b.items.length then
    { b with
      index := some i
      index_lt := fun j hj ↦ by
        cases hj
        exact h }
  else { b with index := none, index_lt := nofun }

/-- `QComboBox::currentText`. -/
def currentText (b : ComboBox) : Text :=
  match b.index with
  | some i => b.items.getD i []
  | none => []

variable {b : ComboBox} {i : ℕ} {t : Text}

@[simp] theorem items_addItem : (b.addItem t).items = b.items ++ [t] := rfl

@[simp] theorem items_setCurrentIndex : (b.setCurrentIndex i).items = b.items := by
  rw [setCurrentIndex]
  split <;> rfl

theorem index_setCurrentIndex (h : i < b.items.length) : (b.setCurrentIndex i).index = some i := by
  rw [setCurrentIndex, dif_pos h]

theorem currentText_of_index_eq_none (h : b.index = none) : b.currentText = [] := by
  rw [currentText, h]

/-- The current text is one of the items. -/
theorem getElem?_of_index (h : b.index = some i) : b.items[i]? = some b.currentText := by
  have hi := b.index_lt i h
  rw [currentText, h, List.getElem?_eq_getElem hi]
  exact congrArg some (List.getD_eq_getElem _ _ hi).symm

theorem currentText_mem (h : b.index = some i) : b.currentText ∈ b.items :=
  List.mem_of_getElem? (getElem?_of_index h)

/-- Adding items one after the other. -/
theorem items_foldl_addItem (l : List Text) (b : ComboBox) :
    (l.foldl addItem b).items = b.items ++ l := by
  induction l generalizing b with
  | nil => exact (List.append_nil b.items).symm
  | cons t l ih => rw [List.foldl_cons, ih, items_addItem, List.append_assoc]; rfl

end ComboBox

end Qt
