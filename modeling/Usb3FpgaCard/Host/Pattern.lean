import Mathlib.Data.Int.Notation
import Mathlib.Data.List.Chain
import Usb3FpgaCard.Host.Gui

/-!
# The check for gaps in the data: `DEBUG_PATTERN`

With all channels on the bits of the FPGA's counter, each received byte, turned around, is one more
than the byte before it, modulo 256.  `on_start_btn_clicked` goes through the bytes and reports the
first that is not.  The counter goes from 255 to 0, and to allow for this the check lets a byte pass
if it is 0 and also if the byte before it is 255, where both together would have been right.

So what is reported is a gap, but a gap before a 0 or after a 255 is not seen, and if there is no
other nothing is reported (`patternExact_iff`).
-/

set_option autoImplicit false

namespace Usb3FpgaCard
namespace Host

/-! ## The check -/

/-- The loop over `data_buffer` from some byte on, `oldByte` being the one before it.  It ends with
the first report: the message box, and the values of `new_byte` and `old_byte` in the debug
output. -/
def patternLoop (oldByte : ℤ) : List (BitVec 8) → Option (ℤ × ℤ)
  | [] => none
  | b :: data =>
    let newByte : ℤ := (reverse b).toNat
    if newByte - oldByte ≠ 1 ∧ newByte ≠ 0 ∧ oldByte ≠ 255 ∧ oldByte ≠ -1 then
      some (newByte, oldByte)
    else patternLoop newByte data

/-- The check of `on_start_btn_clicked`. -/
def patternCheck (data : List (BitVec 8)) : Option (ℤ × ℤ) := patternLoop (-1) data

/-- What a click on `start_btn` reports. -/
def Window.patternReport (w : Window) (ui : Ui) (v : ℕ) (o : Outcomes) : Option (ℤ × ℤ) :=
  if w.communicationEnabled then patternCheck (w.onStartBtnClicked ui v o).dataBuffer else none

/-! ## Gaps -/

/-- The byte does not continue the one before it. -/
def Breaks (old new : BitVec 8) : Prop := reverse new ≠ reverse old + 1

/-- The byte is before or after a wrap of the counter. -/
def Wraps (old new : BitVec 8) : Prop := reverse old = 255 ∨ reverse new = 0

instance (old new : BitVec 8) : Decidable (Breaks old new) := inferInstanceAs (Decidable (_ ≠ _))

instance (old new : BitVec 8) : Decidable (Wraps old new) := inferInstanceAs (Decidable (_ ∨ _))

/-- There is a gap in the data. -/
def NotContinuous (data : List (BitVec 8)) : Prop :=
  ∃ i, ∃ h : i + 1 < data.length, Breaks data[i] data[i + 1]

/-- There is a gap that does not look like a wrap of the counter. -/
def PlainGap (data : List (BitVec 8)) : Prop :=
  ∃ i, ∃ h : i + 1 < data.length, Breaks data[i] data[i + 1] ∧ ¬ Wraps data[i] data[i + 1]

/-- The check reports something exactly if there is a gap. -/
def PatternExact (data : List (BitVec 8)) : Prop :=
  (patternCheck data).isSome = true ↔ NotContinuous data

section check

variable {data : List (BitVec 8)} {old new : BitVec 8}

/-- **What is reported** between two bytes. -/
theorem reported_iff :
    (((reverse new).toNat : ℤ) - (reverse old).toNat ≠ 1 ∧ ((reverse new).toNat : ℤ) ≠ 0 ∧
      ((reverse old).toNat : ℤ) ≠ 255 ∧ ((reverse old).toNat : ℤ) ≠ -1) ↔
      Breaks old new ∧ ¬ Wraps old new := by
  have hnew := (reverse new).isLt
  have hold := (reverse old).isLt
  have hsucc : (reverse old + 1).toNat = ((reverse old).toNat + 1) % 256 := BitVec.toNat_add _ _
  rw [Breaks, Wraps, ne_eq (reverse new), ← BitVec.toNat_inj, ← BitVec.toNat_inj,
    ← BitVec.toNat_inj, hsucc, show (255 : BitVec 8).toNat = 255 from rfl,
    show (0 : BitVec 8).toNat = 0 from rfl]
  omega

/-- The loop after a byte reports nothing if all bytes from there on pass. -/
theorem patternLoop_eq_none_iff (b : BitVec 8) :
    patternLoop (reverse b).toNat data = none ↔
      (b :: data).IsChain fun old new ↦ ¬ (Breaks old new ∧ ¬ Wraps old new) := by
  induction data generalizing b with
  | nil => exact iff_of_true rfl (.singleton b)
  | cons c data ih =>
    have hloop : patternLoop (reverse b).toNat (c :: data) =
        if Breaks b c ∧ ¬ Wraps b c then some (((reverse c).toNat : ℤ), ((reverse b).toNat : ℤ))
        else patternLoop (reverse c).toNat data := if_congr reported_iff rfl rfl
    rw [List.isChain_cons_cons, ← ih c, hloop]
    split
    case isTrue h => exact iff_of_false nofun fun h' ↦ h'.1 h
    case isFalse h => exact (and_iff_right h).symm

/-- **The check** reports a gap that does not look like a wrap. -/
theorem isSome_patternCheck_iff : (patternCheck data).isSome = true ↔ PlainGap data := by
  have hnone : patternCheck data = none ↔
      data.IsChain fun old new ↦ ¬ (Breaks old new ∧ ¬ Wraps old new) := by
    cases data with
    | nil => exact iff_of_true rfl .nil
    | cons b data =>
      -- there is no byte before the first
      have hfirst : patternCheck (b :: data) = patternLoop (reverse b).toNat data :=
        if_neg fun h ↦ h.2.2.2 rfl
      rw [hfirst, patternLoop_eq_none_iff]
  rw [← Option.ne_none_iff_isSome, ne_eq, hnone, List.isChain_iff_getElem, PlainGap]
  simp only [not_forall, not_not]

/-- So does a click on `start_btn`, of the data it has received. -/
theorem isSome_patternReport_iff {w : Window} {ui : Ui} {v : ℕ} {o : Outcomes} :
    (w.patternReport ui v o).isSome = true ↔
      w.communicationEnabled = true ∧ PlainGap (w.onStartBtnClicked ui v o).dataBuffer := by
  rw [Window.patternReport]
  split
  case isTrue h => exact isSome_patternCheck_iff.trans (and_iff_right h).symm
  case isFalse h => exact iff_of_false Bool.false_ne_true fun h' ↦ h h'.1

theorem PlainGap.notContinuous (h : PlainGap data) : NotContinuous data := by
  obtain ⟨i, hi, hbreaks, -⟩ := h
  exact ⟨i, hi, hbreaks⟩

/-- **When the check is exact**: unless all gaps look like wraps of the counter. -/
theorem patternExact_iff (data : List (BitVec 8)) :
    PatternExact data ↔ (NotContinuous data → PlainGap data) := by
  rw [PatternExact, isSome_patternCheck_iff]
  exact ⟨fun h ↦ h.mpr, fun h ↦ ⟨PlainGap.notContinuous, h⟩⟩

/-- **A 0 after a 5 is not reported.** -/
theorem not_patternExact_zero : ¬ PatternExact [0xA0, 0x00] := fun h ↦
  absurd (h.mpr ⟨0, by decide, by decide⟩) (by decide)

end check

end Host
end Usb3FpgaCard
