import Mathlib.Tactic.NormNum
import Usb3FpgaCard.Allocation.Blocks

/-!
# The status bits of the DMA buffers: `fx3/cyfxtx.c`

The buffer manager has a bit for each cache line of the buffer heap, in an array of 32-bit words.
This file has the two loops over that array: the one that sets or clears a range of bits, a word at
a time (`dmaBufMgrSetStatus`), and the one of `CyU3PDmaBufferAlloc` that looks for a range of zeros,
a bit at a time (`search`).  Both return `none` when they touch a word that does not exist.

`marks` reads the array as a table of marks, one for each line.  In these terms the first loop marks
a range (`marks_setStatus`), and the second is the first-fit scan from the word where the search
starts to the end, and then from the top to that word (`search_eq`).
-/

set_option autoImplicit false

namespace Usb3FpgaCard
namespace Fx3

open Allocation

/-- The bit of line `i`. -/
def marks (usedStatus : List (BitVec 32)) (i : ℕ) : Bool :=
  (usedStatus.getD (i / 32) 0).getLsbD (i % 32)

/-- The array is determined by its length and its bits. -/
theorem eq_of_marks_eq {us us' : List (BitVec 32)} (hlen : us.length = us'.length)
    (h : marks us = marks us') : us = us' := by
  refine List.ext_getElem hlen fun w hw hw' ↦ BitVec.eq_of_getLsbD_eq fun j hj ↦ ?_
  have hbit := congrFun h (32 * w + j)
  rw [marks, marks, show (32 * w + j) / 32 = w by omega,
    show (32 * w + j) % 32 = j by omega] at hbit
  simpa [hw, hw'] using hbit

/-! ## The loops -/

/-- The loop of `CyU3PDmaBufMgrSetStatus`.  No more than `fuel` words are changed. -/
def setStatusLoop (value : Bool) : (fuel : ℕ) → (usedStatus : List (BitVec 32)) →
    (wordnum numBits startbit endbit : ℕ) → (mask : BitVec 32) → Option (List (BitVec 32))
  | 0, usedStatus, _, numBits, _, _, _ => if numBits = 0 then some usedStatus else none
  | fuel + 1, usedStatus, wordnum, numBits, startbit, endbit, mask =>
    if numBits = 0 then some usedStatus
    else
      match usedStatus[wordnum]? with
      | none => none
      | some word =>
        let usedStatus :=
          usedStatus.set wordnum (if value then word ||| mask else word &&& ~~~mask)
        let numBits := numBits - (endbit - startbit)
        if 32 ≤ numBits then
          setStatusLoop value fuel usedStatus (wordnum + 1) numBits 0 32 0xFFFFFFFF#32
        else
          setStatusLoop value fuel usedStatus (wordnum + 1) numBits 0 numBits
            (1#32 <<< numBits - 1#32)

/-- `CyU3PDmaBufMgrSetStatus`. -/
def dmaBufMgrSetStatus (usedStatus : List (BitVec 32)) (startPos numBits : ℕ) (value : Bool) :
    Option (List (BitVec 32)) :=
  let wordnum := startPos / 32
  let startbit := startPos % 32
  let endbit := min 32 (startbit + numBits)
  -- a one at all the positions to be altered
  let mask : BitVec 32 := if endbit = 32 then 0xFFFFFFFF#32 else 1#32 <<< endbit - 1#32
  let mask := mask - (1#32 <<< startbit - 1#32)
  setStatusLoop value numBits usedStatus wordnum numBits startbit endbit mask

/-- The variables of the search loop. -/
structure Search where
  wordnum : ℕ
  bitnum : ℕ
  count : ℕ
  start : ℕ
  /-- The number of words that have been searched. -/
  tmp : ℕ
  /-- `glBufferManager.searchPos`. -/
  searchPos : ℕ

/-- The bit is zero: the first one fixes where the block would start. -/
def Search.countZero (s : Search) : Search :=
  let s := if s.count = 0 then { s with start := s.wordnum * 32 + s.bitnum + 1 } else s
  { s with count := s.count + 1 }

/-- The end of the loop: the next bit, and from the last word back to the top of the array. -/
def Search.next (statusSize : ℕ) (s : Search) : Search :=
  if s.bitnum + 1 = 32 then
    let s := { s with bitnum := 0, wordnum := s.wordnum + 1, tmp := s.tmp + 1 }
    if s.wordnum = statusSize then { s with wordnum := 0, count := 0 } else s
  else { s with bitnum := s.bitnum + 1 }

/-- The search loop of `CyU3PDmaBufferAlloc`, for `size` lines.  No more than `fuel` bits are looked
at. -/
def search (usedStatus : List (BitVec 32)) (statusSize size : ℕ) :
    (fuel : ℕ) → (s : Search) → Option Search
  | 0, s => if s.tmp < statusSize then none else some s
  | fuel + 1, s =>
    if s.tmp < statusSize then
      match usedStatus[s.wordnum]? with
      | none => none
      | some word =>
        if word &&& 1#32 <<< s.bitnum = 0#32 then
          let s := s.countZero
          if s.count = (size + 1) % 65536 then some { s with searchPos := s.wordnum }
          else search usedStatus statusSize size fuel (s.next statusSize)
        else search usedStatus statusSize size fuel (Search.next statusSize { s with count := 0 })
    else some s

/-! ## Setting and clearing bits -/

section SetStatus

variable {usedStatus : List (BitVec 32)} {i w s e : ℕ}

/-- The mask with ones at the bits from `s` to before `e`. -/
def maskBits (s e : ℕ) : BitVec 32 := BitVec.ofNat 32 (2 ^ e - 2 ^ s)

theorem getLsbD_maskBits (hse : s ≤ e) (hi : i < 32) :
    (maskBits s e).getLsbD i = decide (s ≤ i ∧ i < e) := by
  have hpow : 2 ^ e - 2 ^ s = 2 ^ s * (2 ^ (e - s) - 1) := by
    rw [Nat.mul_sub, Nat.mul_one, ← Nat.pow_add, Nat.add_sub_cancel' hse]
  rw [maskBits, BitVec.getLsbD_ofNat, hpow, Nat.testBit_two_pow_mul, Nat.testBit_two_pow_sub_one]
  simp only [hi, decide_true, Bool.true_and, Bool.decide_and]
  by_cases hs : s ≤ i
  · simp only [hs, decide_true, Bool.true_and]
    exact decide_eq_decide.mpr (by omega)
  · simp [hs]

theorem ofNat_below (he : e < 32) : 1#32 <<< e - 1#32 = BitVec.ofNat 32 (2 ^ e - 1) := by
  have hlt : 2 ^ e < 2 ^ 32 := Nat.pow_lt_pow_right (by omega) he
  have hpos : 0 < 2 ^ e := Nat.two_pow_pos e
  refine BitVec.eq_of_toNat_eq ?_
  rw [BitVec.toNat_sub, BitVec.toNat_shiftLeft]
  have hone : (1 : ℕ) % 2 ^ 32 = 1 := by norm_num
  simp only [BitVec.toNat_ofNat, Nat.shiftLeft_eq, hone, Nat.one_mul]
  omega

theorem mask_zero (he : e < 32) : 1#32 <<< e - 1#32 = maskBits 0 e := by
  rw [ofNat_below he, maskBits, Nat.pow_zero]

/-- The mask the function starts with. -/
theorem mask_eq (hse : s ≤ e) (hs : s < 32) (he : e ≤ 32) :
    (if e = 32 then 0xFFFFFFFF#32 else 1#32 <<< e - 1#32) - (1#32 <<< s - 1#32) = maskBits s e := by
  have hle : 2 ^ s ≤ 2 ^ e := Nat.pow_le_pow_right (by omega) hse
  have hlt : 2 ^ e ≤ 2 ^ 32 := Nat.pow_le_pow_right (by omega) he
  have hpos : 0 < 2 ^ s := Nat.two_pow_pos s
  have hhigh : (if e = 32 then 0xFFFFFFFF#32 else 1#32 <<< e - 1#32) =
      BitVec.ofNat 32 (2 ^ e - 1) := by
    split
    · next h =>
      subst h
      rfl
    · exact ofNat_below (by omega)
  rw [hhigh, ofNat_below hs, maskBits]
  refine BitVec.eq_of_toNat_eq ?_
  simp only [BitVec.toNat_sub, BitVec.toNat_ofNat]
  omega

theorem marks_set (hw : w < usedStatus.length) (word : BitVec 32) :
    marks (usedStatus.set w word) i =
      if i / 32 = w then word.getLsbD (i % 32) else marks usedStatus i := by
  rw [marks, marks, List.getD_eq_getElem?_getD, List.getD_eq_getElem?_getD, List.getElem?_set]
  by_cases h : i / 32 = w
  · rw [if_pos h.symm, if_pos hw, if_pos h, Option.getD_some]
  · rw [if_neg (Ne.symm h), if_neg h]

/-- One word: the bits of the mask are altered. -/
theorem marks_setWord {word : BitVec 32} (hword : usedStatus[w]? = some word) (hse : s ≤ e)
    (he : e ≤ 32) (value : Bool) :
    marks (usedStatus.set w (if value then word ||| maskBits s e else word &&& ~~~maskBits s e)) =
      mark (marks usedStatus) (32 * w + s) (e - s) value := by
  obtain ⟨hw, rfl⟩ := List.getElem?_eq_some_iff.mp hword
  funext i
  have hi : i % 32 < 32 := Nat.mod_lt _ (by omega)
  rw [marks_set hw]
  by_cases h : i / 32 = w
  · rw [if_pos h]
    have hold : marks usedStatus i = usedStatus[w].getLsbD (i % 32) := by
      simp [marks, h, hw]
    by_cases hin : s ≤ i % 32 ∧ i % 32 < e
    · rw [mark_of_mem (by omega)]
      have hmask := (getLsbD_maskBits hse hi).trans (decide_eq_true hin)
      cases value
      · simp only [Bool.false_eq_true, ↓reduceIte, BitVec.getLsbD_and, BitVec.getLsbD_not, hmask,
          Bool.not_true, Bool.and_false]
      · simp only [↓reduceIte, BitVec.getLsbD_or, hmask, Bool.or_true]
    · rw [mark_of_not_mem (by omega), hold]
      have hmask := (getLsbD_maskBits hse hi).trans (decide_eq_false hin)
      cases value
      · simp only [Bool.false_eq_true, ↓reduceIte, BitVec.getLsbD_and, BitVec.getLsbD_not, hmask,
          hi, decide_true, Bool.not_false, Bool.and_true]
      · simp only [↓reduceIte, BitVec.getLsbD_or, hmask, Bool.or_false]
  · rw [if_neg h, mark_of_not_mem (by omega)]

/-- The loop goes through the words of the range. -/
theorem setStatusLoop_eq (value : Bool) {fuel n : ℕ} (hfuel : n ≤ fuel) (hs : s < 32)
    (hn : 32 * w + s + n ≤ 32 * usedStatus.length) :
    ∃ usedStatus', setStatusLoop value fuel usedStatus w n s (min 32 (s + n))
        (maskBits s (min 32 (s + n))) = some usedStatus' ∧
      usedStatus'.length = usedStatus.length ∧
      marks usedStatus' = mark (marks usedStatus) (32 * w + s) n value := by
  induction fuel generalizing usedStatus w n s with
  | zero =>
    obtain rfl : n = 0 := by omega
    exact ⟨usedStatus, by rw [setStatusLoop, if_pos rfl], rfl, (mark_zero _ _).symm⟩
  | succ fuel ih =>
    by_cases h0 : n = 0
    · subst h0
      exact ⟨usedStatus, by rw [setStatusLoop, if_pos rfl], rfl, (mark_zero _ _).symm⟩
    · have hw : w < usedStatus.length := by omega
      set e := min 32 (s + n) with he
      have hword : usedStatus[w]? = some usedStatus[w] := List.getElem?_eq_getElem hw
      have hmarks := marks_setWord hword (show s ≤ e by omega) (by omega) value
      rw [setStatusLoop, if_neg h0, hword]
      dsimp only
      set usedStatus₁ := usedStatus.set w
        (if value then usedStatus[w] ||| maskBits s e else usedStatus[w] &&& ~~~maskBits s e)
      have hlen : usedStatus₁.length = usedStatus.length := List.length_set
      obtain ⟨usedStatus', heq, hlen', hmarks'⟩ := ih (n := n - (e - s)) (s := 0) (by omega)
        (by omega) (show 32 * (w + 1) + 0 + (n - (e - s)) ≤ 32 * usedStatus₁.length by
          rw [hlen]
          omega)
      refine ⟨usedStatus', ?_, hlen'.trans hlen, ?_⟩
      · by_cases hfull : 32 ≤ n - (e - s)
        · rw [if_pos hfull]
          rw [show min 32 (0 + (n - (e - s))) = 32 by omega] at heq
          exact heq
        · rw [if_neg hfull, mask_zero (by omega)]
          rw [show min 32 (0 + (n - (e - s))) = n - (e - s) by omega] at heq
          exact heq
      · rw [hmarks', hmarks]
        by_cases hlast : e = s + n
        · rw [show n - (e - s) = 0 by omega, mark_zero, show e - s = n by omega]
        · rw [show 32 * (w + 1) + 0 = 32 * w + s + (e - s) by omega, mark_mark,
            show e - s + (n - (e - s)) = n by omega]

/-- **A range of bits is set or cleared, and nothing else.** -/
theorem marks_setStatus {start n : ℕ} (value : Bool)
    (hn : start + n ≤ 32 * usedStatus.length) :
    ∃ usedStatus', dmaBufMgrSetStatus usedStatus start n value = some usedStatus' ∧
      usedStatus'.length = usedStatus.length ∧
      marks usedStatus' = mark (marks usedStatus) start n value := by
  have hmod : start % 32 < 32 := Nat.mod_lt _ (by omega)
  obtain ⟨usedStatus', heq, hlen, hmarks⟩ := setStatusLoop_eq value (Nat.le_refl n) hmod
    (show 32 * (start / 32) + start % 32 + n ≤ 32 * usedStatus.length by omega)
  refine ⟨usedStatus', ?_, hlen, by rw [hmarks, Nat.div_add_mod]⟩
  rw [dmaBufMgrSetStatus, mask_eq (by omega) hmod (by omega)]
  exact heq

end SetStatus

/-! ## Looking for a range of zeros -/

section Search

variable {usedStatus : List (BitVec 32)} {n size p c t k fuel z : ℕ} {s : Search}

theorem and_bit_eq_zero (word : BitVec 32) {b : ℕ} (hb : b < 32) :
    word &&& 1#32 <<< b = 0#32 ↔ word.getLsbD b = false := by
  have hbit : ∀ j < 32, (word &&& 1#32 <<< b).getLsbD j = (word.getLsbD j && decide (j = b)) := by
    intro j hj
    rw [BitVec.getLsbD_and, BitVec.getLsbD_shiftLeft]
    by_cases hjb : j = b
    · subst hjb
      simp [hj]
    · simp [hj, hjb]
      omega
  constructor
  · intro h
    have := hbit b hb
    rw [h] at this
    simpa using this.symm
  · intro h
    refine BitVec.eq_of_getLsbD_eq fun j hj ↦ ?_
    rw [hbit j hj]
    by_cases hjb : j = b
    · simp [hjb, h]
    · simp [hjb]

/-- The loop is at line `p` of `n` words, after `c` zeros, having searched `t` words.  After the
last line it is back at the top, and starts to count again. -/
structure Search.At (n p c t : ℕ) (s : Search) : Prop where
  wordnum : s.wordnum = if p = 32 * n then 0 else p / 32
  bitnum : s.bitnum = p % 32
  count : s.count = if p = 32 * n then 0 else c
  start : 0 < c → s.start + c = p + 1
  tmp : s.tmp = t

theorem Search.searchPos_next : (s.next n).searchPos = s.searchPos := by
  unfold Search.next
  split
  · dsimp only
    split <;> rfl
  · rfl

/-- The end of the loop takes it to the next line. -/
theorem Search.At.next (hs : s.wordnum = p / 32 ∧ s.bitnum = p % 32 ∧ s.tmp = t ∧ s.count = c)
    (hstart : 0 < c → s.start + c = p + 2) :
    (s.next n).At n (p + 1) c (t + ((p + 1) / 32 - p / 32)) := by
  obtain ⟨hw, hb, ht, hc⟩ := hs
  unfold Search.next
  by_cases hbit : s.bitnum + 1 = 32
  · rw [if_pos hbit]
    by_cases hlast : s.wordnum + 1 = n
    · dsimp only
      rw [if_pos hlast]
      exact ⟨by rw [if_pos (by omega)], by dsimp only; omega, by rw [if_pos (by omega)],
        fun h ↦ by have := hstart h; dsimp only; omega, by dsimp only; omega⟩
    · dsimp only
      rw [if_neg hlast]
      exact ⟨by rw [if_neg (by omega)]; dsimp only; omega, by dsimp only; omega,
        by rw [if_neg (by omega)]; exact hc,
        fun h ↦ by have := hstart h; dsimp only; omega, by dsimp only; omega⟩
  · rw [if_neg hbit]
    exact ⟨by rw [if_neg (by omega)]; dsimp only; omega, by dsimp only; omega,
      by rw [if_neg (by omega)]; exact hc, fun h ↦ by have := hstart h; dsimp only; omega,
      by dsimp only; omega⟩

theorem Search.At.countZero (hs : s.At n p c t) (hp : p < 32 * n) :
    (s.countZero.wordnum = p / 32 ∧ s.countZero.bitnum = p % 32 ∧ s.countZero.tmp = t ∧
      s.countZero.count = c + 1) ∧ s.countZero.start + (c + 1) = p + 2 ∧
      s.countZero.searchPos = s.searchPos := by
  have hw := hs.wordnum
  have hc := hs.count
  rw [if_neg (by omega)] at hw hc
  have hb := hs.bitnum
  have ht := hs.tmp
  unfold Search.countZero
  by_cases h0 : s.count = 0
  · rw [if_pos h0]
    dsimp only
    omega
  · rw [if_neg h0]
    have := hs.start (by omega)
    dsimp only
    omega

/-- After the last line it is at the first one. -/
theorem Search.At.wrap (hs : s.At n (32 * n) c t) (hn : 0 < n) : s.At n 0 0 t := by
  have hw := hs.wordnum
  have hc := hs.count
  rw [if_pos rfl] at hw hc
  exact ⟨by rw [if_neg (by omega), hw], by rw [hs.bitnum]; omega, by rw [if_neg (by omega), hc],
    fun h ↦ absurd h (by omega), hs.tmp⟩

theorem search_succ (hw : usedStatus.length = n) (hs : s.At n p c t) (hp : p < 32 * n)
    (ht : t < n) (hsize : size + 1 < 65536) :
    search usedStatus n size (fuel + 1) s =
      if marks usedStatus p then
        search usedStatus n size fuel (Search.next n { s with count := 0 })
      else if c + 1 = size + 1 then some { s.countZero with searchPos := p / 32 }
      else search usedStatus n size fuel (s.countZero.next n) := by
  have hwn := hs.wordnum
  rw [if_neg (by omega)] at hwn
  have hlt : p / 32 < usedStatus.length := by omega
  have hmarks : marks usedStatus p = usedStatus[p / 32].getLsbD (p % 32) := by
    simp [marks, hlt]
  obtain ⟨⟨hzw, -, -, hzc⟩, -, -⟩ := hs.countZero hp
  rw [search, if_pos (by rw [hs.tmp]; exact ht), hwn, List.getElem?_eq_getElem hlt, hmarks]
  dsimp only
  by_cases hbit : usedStatus[p / 32].getLsbD (p % 32) = false
  · rw [hs.bitnum, if_pos ((and_bit_eq_zero _ (Nat.mod_lt _ (by omega))).mpr hbit), hbit,
      if_neg Bool.false_ne_true, Nat.mod_eq_of_lt hsize, hzc, hzw]
  · rw [hs.bitnum, if_neg fun h ↦ hbit ((and_bit_eq_zero _ (Nat.mod_lt _ (by omega))).mp h),
      if_pos (Bool.not_eq_false _ ▸ hbit)]

/-- Through `k` lines to the end of a word the loop is the first-fit scan. -/
theorem search_stretch (fuel : ℕ) (hw : usedStatus.length = n) (hsize : size + 1 < 65536)
    (hc : c ≤ size) (hcp : c ≤ p) (hk : p + k ≤ 32 * n) (hend : (p + k) % 32 = 0)
    (ht : t + ((p + k) / 32 - p / 32) ≤ n) (hs : s.At n p c t) :
    (∀ z, firstFit (marks usedStatus) (size + 1) k p c = some z →
      ∃ s', search usedStatus n size (k + fuel) s = some s' ∧ s'.count = size + 1 ∧
        s'.start = z + 1 ∧ s'.searchPos = (z + size) / 32) ∧
    (firstFit (marks usedStatus) (size + 1) k p c = none →
      ∃ s' c', search usedStatus n size (k + fuel) s = search usedStatus n size fuel s' ∧
        c' ≤ size ∧ s'.At n (p + k) c' (t + ((p + k) / 32 - p / 32)) ∧
        s'.searchPos = s.searchPos) := by
  induction k generalizing p c t s with
  | zero =>
    refine ⟨fun z h ↦ absurd h (by simp [firstFit]), fun _ ↦ ?_⟩
    refine ⟨s, c, by rw [Nat.zero_add], hc, ?_, rfl⟩
    simpa using hs
  | succ k ih =>
    have hp : p < 32 * n := by omega
    rw [show k + 1 + fuel = (k + fuel) + 1 by omega,
      search_succ hw hs hp (by omega) hsize, firstFit]
    have htmp : t + ((p + 1) / 32 - p / 32) + ((p + (k + 1)) / 32 - (p + 1) / 32) =
        t + ((p + (k + 1)) / 32 - p / 32) := by omega
    have hpk : p + 1 + k = p + (k + 1) := by omega
    have hwn := hs.wordnum
    rw [if_neg (by omega)] at hwn
    by_cases hm : marks usedStatus p = true
    · rw [if_pos hm, if_pos hm]
      have hnext : (Search.next n { s with count := 0 }).At n (p + 1) 0
          (t + ((p + 1) / 32 - p / 32)) :=
        Search.At.next ⟨hwn, hs.bitnum, hs.tmp, rfl⟩ (fun h ↦ absurd h (by omega))
      obtain ⟨hsome, hnone⟩ := ih (Nat.zero_le _) (Nat.zero_le _) (by omega) (by rwa [hpk])
        (by omega) hnext
      rw [hpk, htmp, Search.searchPos_next] at hnone
      exact ⟨hsome, hnone⟩
    · rw [if_neg hm, if_neg hm]
      obtain ⟨hz, hstart, hpos⟩ := hs.countZero hp
      by_cases hfound : c + 1 = size + 1
      · rw [if_pos hfound, if_pos hfound]
        refine ⟨fun z h ↦ ?_, fun h ↦ absurd h (by simp)⟩
        have hz' := Option.some.inj h
        exact ⟨_, rfl, by dsimp only; omega, by dsimp only; omega, by dsimp only; omega⟩
      · rw [if_neg hfound, if_neg hfound]
        obtain ⟨hsome, hnone⟩ := ih (by omega) (by omega) (by omega) (by rwa [hpk]) (by omega)
          (Search.At.next hz fun _ ↦ hstart)
        rw [hpk, htmp, Search.searchPos_next, hpos] at hnone
        exact ⟨hsome, hnone⟩

/-- The places the search tries, in this order: from the word where it starts to the end, and then
from the top to this word. -/
def firstFree (bits : ℕ → Bool) (need n searchPos : ℕ) : Option ℕ :=
  firstFit bits need (32 * n - 32 * searchPos) (32 * searchPos) 0 <|>
    firstFit bits need (32 * searchPos) 0 0

/-- There is room where the search ends, -/
theorem firstFree_eq_some {bits : ℕ → Bool} {need searchPos : ℕ} (hneed : 0 < need)
    (hpos : searchPos ≤ n) (h : firstFree bits need n searchPos = some z) :
    Fits bits need 0 (32 * n) z := by
  rw [firstFree] at h
  cases h₁ : firstFit bits need (32 * n - 32 * searchPos) (32 * searchPos) 0 with
  | some z₁ =>
    rw [h₁] at h
    obtain rfl := Option.some.inj h
    exact (firstFit_eq_some hneed h₁).1.mono (Nat.zero_le _) (by omega)
  | none =>
    rw [h₁] at h
    exact (firstFit_eq_some hneed h).1.mono (Nat.le_refl _) (by omega)

/-- and it ends nowhere only if there is room neither behind its first word nor before it. -/
theorem firstFree_eq_none_iff (bits : ℕ → Bool) {need searchPos : ℕ} (hneed : 0 < need)
    (hpos : searchPos ≤ n) :
    firstFree bits need n searchPos = none ↔
      ∀ z, ¬ Fits bits need (32 * searchPos) (32 * n) z ∧
        ¬ Fits bits need 0 (32 * searchPos) z := by
  have hend : 32 * searchPos + (32 * n - 32 * searchPos) = 32 * n := by omega
  rw [firstFree]
  cases h₁ : firstFit bits need (32 * n - 32 * searchPos) (32 * searchPos) 0 with
  | some z₁ =>
    have hfits := (firstFit_eq_some hneed h₁).1
    rw [hend] at hfits
    exact ⟨fun h ↦ absurd h (by simp), fun h ↦ absurd hfits (h z₁).1⟩
  | none =>
    have hnot := fun z ↦ firstFit_eq_none (z := z) hneed h₁
    rw [hend] at hnot
    cases h₂ : firstFit bits need (32 * searchPos) 0 0 with
    | some z₂ =>
      have hfits := (firstFit_eq_some hneed h₂).1
      rw [Nat.zero_add] at hfits
      exact ⟨fun h ↦ absurd h (by simp), fun h ↦ absurd hfits (h z₂).2⟩
    | none =>
      have hnot₂ := fun z ↦ firstFit_eq_none (z := z) hneed h₂
      rw [Nat.zero_add] at hnot₂
      exact ⟨fun _ z ↦ ⟨hnot z, hnot₂ z⟩, fun _ ↦ rfl⟩

/-- **The search finds the first place that is free.**  It touches no word that is not there. -/
theorem search_eq (hw : usedStatus.length = n) (size : ℕ) (hsize : size + 1 < 65536)
    {searchPos : ℕ} (hpos : searchPos < n) :
    ∃ s, search usedStatus n size (32 * n) ⟨searchPos, 0, 0, 0, 0, searchPos⟩ = some s ∧
      match firstFree (marks usedStatus) (size + 1) n searchPos with
      | some z => s.count = size + 1 ∧ s.start = z + 1 ∧ s.searchPos = (z + size) / 32
      | none => s.count ≤ size ∧ s.searchPos = searchPos := by
  have hat : Search.At n (32 * searchPos) 0 0 ⟨searchPos, 0, 0, 0, 0, searchPos⟩ :=
    ⟨by rw [if_neg (by omega)]; dsimp only; omega, by dsimp only; omega, by rw [if_neg (by omega)],
      fun h ↦ absurd h (by omega), rfl⟩
  have hfuel : 32 * n = (32 * n - 32 * searchPos) + (32 * searchPos + 0) := by omega
  obtain ⟨hsome₁, hnone₁⟩ := search_stretch (32 * searchPos + 0) hw hsize
    (Nat.zero_le _) (Nat.zero_le _) (k := 32 * n - 32 * searchPos) (by omega) (by omega) (by omega)
    hat
  rw [firstFree]
  rw [← hfuel] at hsome₁ hnone₁
  cases h₁ : firstFit (marks usedStatus) (size + 1) (32 * n - 32 * searchPos) (32 * searchPos) 0
    with
  | some z =>
    obtain ⟨s, heq, hs⟩ := hsome₁ z h₁
    exact ⟨s, heq, hs⟩
  | none =>
    obtain ⟨s₁, c₁, heq₁, -, hat₁, hs₁⟩ := hnone₁ h₁
    rw [show 32 * searchPos + (32 * n - 32 * searchPos) = 32 * n by omega] at hat₁
    obtain ⟨hsome₂, hnone₂⟩ := search_stretch 0 hw hsize (Nat.zero_le _)
      (Nat.zero_le _) (k := 32 * searchPos) (by omega) (by omega) (by omega)
      (hat₁.wrap (by omega))
    rw [heq₁]
    cases h₂ : firstFit (marks usedStatus) (size + 1) (32 * searchPos) 0 0 with
    | some z =>
      obtain ⟨s, heq, hs⟩ := hsome₂ z h₂
      exact ⟨s, heq, hs⟩
    | none =>
      obtain ⟨s₂, c₂, heq₂, hc₂, hat₂, hs₂⟩ := hnone₂ h₂
      have hcount := hat₂.count
      rw [if_neg (by omega)] at hcount
      refine ⟨s₂, ?_, by rw [hcount]; exact hc₂, hs₂.trans hs₁⟩
      rw [heq₂, search, if_neg (by rw [hat₂.tmp]; omega)]

end Search

end Fx3
end Usb3FpgaCard
