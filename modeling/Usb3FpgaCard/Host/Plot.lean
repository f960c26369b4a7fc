import Mathlib.Algebra.Field.Rat
import Mathlib.Data.List.FinRange
import Mathlib.Data.List.GetD
import Mathlib.Data.Rat.Cast.Defs
import Mathlib.Tactic.Ring
import Usb3FpgaCard.Fpga.Answer
import Usb3FpgaCard.Host.Command

/-!
# The plot: `MainWindow::update_plot`

A channel goes by four numbers on its way to the screen: the place of its source in the header, the
register `ch_src` it is loaded into, its bit of `ch_data`, which is reversed, and its graph, which
is reversed again.  `showsChosen` says that the reversals cancel: graph `g` shows the source that
the combo box of channel `g` has, for any samples the card takes under the selection and in
particular for the samples of every answer.

`double` is `ℚ` here.  All values are exact in `double`: keys are list indices and levels are
multiples of 1/4 below 20.
-/

set_option autoImplicit false

namespace Usb3FpgaCard
namespace Host

open Fpga

/-! ## The graphs -/

/-- The data of the eight graphs `init_plot` has added, as points of key and value. -/
abbrev Plot := Fin 8 → List (ℚ × ℚ)

/-- `QCPGraph::setData`: the graph is emptied and gets a point for each key that has a value. -/
def setData (keys values : List ℚ) : List (ℚ × ℚ) := keys.zip values

/-- `x_vect` for `n` samples. -/
def xVect (n : ℕ) : List ℚ := (List.range n).foldl (fun x j ↦ x.insertIdx j (j : ℚ)) []

/-- `y_vect` for bit `i` of the samples. -/
def yVect (newData : List (BitVec 8)) (i : ℕ) : List ℚ :=
  (List.range newData.length).foldl (fun y j ↦
    y.insertIdx j ((((newData.getD j 0) >>> i) &&& 1).toNat * (5 / 4) + i * (5 / 2))) []

/-- `MainWindow::update_plot`.  Bit `i` goes to graph `7 - i`. -/
def updatePlot (plot : Plot) (newData : List (BitVec 8)) : Plot :=
  (List.finRange 8).foldl (fun plot i ↦
    Function.update plot (Fin.rev i) (setData (xVect newData.length) (yVect newData i.val))) plot

/-! ### What the loops do -/

/-- Inserting at the end again and again. -/
theorem foldl_insertIdx {α : Type*} (f : ℕ → α) (n : ℕ) :
    (List.range n).foldl (fun l j ↦ l.insertIdx j (f j)) [] = (List.range n).map f := by
  induction n with
  | zero => rfl
  | succ n ih =>
    have hlast : ((List.range n).map f).insertIdx ((List.range n).map f).length (f n) = _ :=
      List.insertIdx_length_self
    rw [List.length_map, List.length_range] at hlast
    rw [List.range_succ, List.foldl_append, ih, List.map_append, List.map_singleton, ← hlast]
    rfl

/-- A place no update of a loop is for keeps its value. -/
theorem foldl_update_of_notMem {α β γ : Type*} [DecidableEq β] (e : α → β) (v : α → γ) (x : β)
    (l : List α) (p : β → γ) (h : ∀ i ∈ l, e i ≠ x) :
    l.foldl (fun p i ↦ Function.update p (e i) (v i)) p x = p x := by
  induction l generalizing p with
  | nil => rfl
  | cons i l ih =>
    rw [List.foldl_cons, ih _ fun k hk ↦ h k (List.mem_cons_of_mem i hk)]
    exact Function.update_of_ne (h i List.mem_cons_self).symm _ _

/-- The others have the value of their update. -/
theorem foldl_update_of_mem {α β γ : Type*} [DecidableEq α] [DecidableEq β] {e : α → β}
    (he : Function.Injective e) (v : α → γ) {i : α} (l : List α) (p : β → γ) (h : i ∈ l) :
    l.foldl (fun p i ↦ Function.update p (e i) (v i)) p (e i) = v i := by
  induction l generalizing p with
  | nil => exact absurd h List.not_mem_nil
  | cons k l ih =>
    rw [List.foldl_cons]
    by_cases hl : i ∈ l
    · exact ih _ hl
    · obtain rfl := (List.mem_cons.mp h).resolve_right hl
      rw [foldl_update_of_notMem e v (e i) l _ fun j hj heq ↦ hl (he heq ▸ hj)]
      exact Function.update_self _ _ _

theorem toNat_shift_and_one (b : BitVec 8) (i : Fin 8) :
    ((b >>> i.val) &&& 1).toNat = (b.getLsbD i.val).toNat := by
  revert b i
  decide +kernel

/-- **Graph `g` shows bit `7 - g`** of the samples, on its own level. -/
theorem updatePlot_eq (plot : Plot) (newData : List (BitVec 8)) (g : Fin 8) :
    updatePlot plot newData g =
      newData.mapIdx fun j b ↦
        ((j : ℚ), (7 - (g.val : ℚ)) * (5 / 2) + 5 / 4 * (b.getLsbD (7 - g.val)).toNat) := by
  have hg : Fin.rev (Fin.rev g) = g := Fin.rev_rev g
  have hval : (Fin.rev g).val = 7 - g.val := by rw [Fin.val_rev]; omega
  rw [updatePlot, ← hg, foldl_update_of_mem Fin.rev_injective _ _ _ (List.mem_finRange _), hg,
    setData, xVect, yVect, foldl_insertIdx, foldl_insertIdx, List.zip_map']
  refine List.ext_getElem (by simp) fun j h1 h2 ↦ ?_
  have hj : j < newData.length := by simpa using h1
  rw [List.getElem_map, List.getElem_range, List.getElem_mapIdx, List.getD_eq_getElem _ _ hj,
    toNat_shift_and_one, hval, Nat.cast_sub (by omega)]
  refine Prod.ext rfl ?_
  push_cast
  ring

/-! ## Each trace shows the source chosen for it -/

/-- The bytes `bytes` show, on every channel, the source its combo box has, `src` being the values
of the sources at each sample: `data_src`, which has the bits of the counter `data_gen` as sources
0 to 7, a constant 0 as source 8 and the push buttons, two edges late, as sources 9 to 12. -/
structure Shows (ui : Ui) (src : List (BitVec 13)) (bytes : List (BitVec 8)) : Prop where
  /-- On the screen: point `j` of graph `g` is at the level of the graph, plus 1.25 if the source
  is high. -/
  graph : ∀ plot g, updatePlot plot bytes g =
    src.mapIdx fun j s ↦
      ((j : ℚ), (7 - (g.val : ℚ)) * (5 / 2) + 5 / 4 * (s.getLsbD (ui.ch g).val).toNat)
  /-- In the pattern check: bit `i` of the reversed byte is channel `i`. -/
  reverse : ∀ i : Fin 8, bytes.map (fun b ↦ (Host.reverse b).getLsbD i.val) =
    src.map fun s ↦ s.getLsbD (ui.ch i).val

/-- Samples taken with the sources of the combo boxes selected show them. -/
theorem shows_of_chSrc {α : Type*} {ui : Ui} {chSrc : Fin 8 → BitVec 8} (l : List α)
    (f : α → FastRegs) (h : ∀ i, chSrc i = BitVec.ofNat 8 (ui.ch i).val) :
    Shows ui (l.map fun x ↦ (f x).dataSrc) (l.map fun x ↦ (f x).chData chSrc) := by
  have hchannel : ∀ x i, (f x).channel chSrc i = (f x).dataSrc.getLsbD (ui.ch i).val := by
    intro x i
    rw [FastRegs.channel, h, BitVec.toNat_ofNat, Nat.mod_eq_of_lt (by omega)]
  refine ⟨fun plot g ↦ ?_, fun i ↦ ?_⟩
  · rw [updatePlot_eq]
    refine List.ext_getElem (by simp) fun j h1 h2 ↦ ?_
    rw [List.getElem_mapIdx, List.getElem_mapIdx, List.getElem_map, List.getElem_map,
      getLsbD_chData, hchannel]
  · rw [List.map_map, List.map_map]
    refine List.map_congr_left fun x _ ↦ ?_
    exact (getLsbD_reverse_chData _ _ _).trans (hchannel x i)

/-- Whatever the card was set up for before, and whatever its sources do, what is shown on a channel
is the source that was chosen for it. -/
structure ShowsChosen (ui : Ui) (v : ℕ) : Prop where
  /-- This holds of any samples the card takes when it has parsed the command, -/
  samples : ∀ (c : Config) (n : ℕ) (l : List FastRegs), 4 ≤ n → 4 * n ≤ txTransferSize →
    Shows ui (l.map FastRegs.dataSrc) (l.map fun f ↦
      f.chData (Parser.after c (wireWord (commandTransfer ui v)) n).config.chSrc)
  /-- and of the first `n` bytes of its answer. -/
  answer : ∀ (inp : ℕ → Pins) (t L a M n : ℕ), ReadBurst inp t L →
    (∀ i, i < L → word inp t i = wireWord (commandTransfer ui v) i) → 4 ≤ L →
    4 * L ≤ txTransferSize → Replies inp t L a M → n ≤ 4 * M →
    Shows ui ((List.range n).map fun j ↦ (fastAt inp (4 * a - 9 + j)).dataSrc)
      ((List.range n).map (burstByte inp a))

/-- **Each trace shows the source chosen for it.** -/
theorem showsChosen (ui : Ui) (v : ℕ) : ShowsChosen ui v where
  samples c n l h4 hn := by
    have hn' : n ≤ 2 ^ 32 := Nat.le_of_lt (lt_of_le_txTransferSize hn)
    refine shows_of_chSrc l id fun i ↦ ?_
    rw [Parser.after_config wireWord_header (by omega) hn', ← wireWord_chSrc (v := v),
      Config.received, Config.ofCommand]
    simp only [show 2 < n by omega, show 3 < n by omega, if_true]
  answer inp t L a M n hb hword h4 hL hr hn := by
    have hL' : L < 2 ^ 32 := lt_of_le_txTransferSize hL
    have h0 : word inp t 0 = Regs.header := by rw [hword 0 (by omega), wireWord_header]
    have ha := hr.burst.three_le
    have hsrc : (Config.ofCommand (word inp t)).chSrc =
        (Config.ofCommand (wireWord (commandTransfer ui v))).chSrc := by
      rw [Config.ofCommand, Config.ofCommand, hword 2 (by omega), hword 3 (by omega)]
    have hbyte : ∀ j ∈ List.range n, burstByte inp a j =
        (fastAt inp (4 * a - 9 + j)).chData
          (Config.ofCommand (wireWord (commandTransfer ui v))).chSrc := by
      intro j hj
      have hj' := List.mem_range.mp hj
      rw [hr.burst.burstByte_eq (by omega), chDataAt,
        hr.chSrc hb h0 h4 hL' (by omega) (by omega), hsrc]
    rw [List.map_congr_left hbyte]
    exact shows_of_chSrc (List.range n) (fun j ↦ fastAt inp (4 * a - 9 + j)) wireWord_chSrc

theorem oneTransfer_replies : Replies oneTransfer 4 5 15 (4096 * 8) where
  burst := by
    have hp : WritePhase oneTransfer 12 14 := Launch.writePhase ⟨by decide, by decide⟩ rfl
    have hcount : wordCount (packetCount oneTransfer 12) = 4096 * 8 := by
      rw [show packetCount oneTransfer 12 = 8 by decide, wordCount_eq (by decide) (by decide)]
      rfl
    exact hcount ▸ hp.writeBurst
  after := by omega
  quiet v h1 h2 :=
    (by decide : ∀ v, v < 16 → 9 ≤ v → ¬ SlrdLow oneTransfer v) v (Nat.lt_succ_of_le h2) h1

/-- The whole answer to one command. -/
theorem showsChosen_oneTransfer :
    Shows firstUi ((List.range rxTransferSize).map fun j ↦ (fastAt oneTransfer (51 + j)).dataSrc)
      ((List.range rxTransferSize).map (burstByte oneTransfer 15)) :=
  (showsChosen firstUi 1).answer oneTransfer 4 5 15 (4096 * 8) rxTransferSize oneTransfer_readBurst
    (fun _ ↦ oneTransfer_word) (by omega) (by decide) oneTransfer_replies (by decide)

end Host
end Usb3FpgaCard
