import Usb3FpgaCard.Fx3.MemBlocks
import Usb3FpgaCard.Fx3.Status

/-!
# The DMA buffer heap: `fx3/cyfxtx.c`

`CyU3PDmaBufferInit`, `CyU3PDmaBufferAlloc` and `CyU3PDmaBufferFree`.  A buffer is a number of cache
lines of the buffer heap, and what is free is known from the status bits alone: a buffer of `n`
lines has `n - 1` ones, and the zero after them ends it.  All functions return `none` if they touch
a status word that does not exist.

`Holds` says that the status bits stand for a list of blocks.  Whatever `CyU3PDmaBufferAlloc` is
asked for and whatever `CyU3PDmaBufferFree` is given, they keep it (`Holds.alloc`, `Holds.free`): a
new block is apart from the others, and a pointer that is freed ends the block it lies in and
touches no other.
-/

set_option autoImplicit false

namespace Usb3FpgaCard
namespace Fx3

open Allocation

/-! ## The memory map -/

/-- The macros at the top of the file. -/
structure MemoryMap where
  /-- `CY_U3P_MEM_HEAP_BASE`. -/
  memHeapBase : ℕ
  /-- `CY_U3P_MEM_HEAP_SIZE`. -/
  memHeapSize : ℕ
  /-- `CY_U3P_SYS_MEM_TOP`. -/
  sysMemTop : ℕ

namespace MemoryMap

/-- `CY_U3P_BUFFER_HEAP_BASE`. -/
def bufferHeapBase (map : MemoryMap) : ℕ := map.memHeapBase + map.memHeapSize

/-- `CY_U3P_BUFFER_HEAP_SIZE`. -/
def bufferHeapSize (map : MemoryMap) : ℕ := map.sysMemTop - map.bufferHeapBase

/-- The map with `CYMEM_256K`. -/
def cymem256k : MemoryMap := ⟨0x40029000, 0x7000, 0x40038000⟩

/-- The map for 512 KB of RAM. -/
def cymem512k : MemoryMap := ⟨0x40038000, 0x8000, 0x40078000⟩

/-- The buffer heap starts at a cache line, and its status bits fill whole words. -/
structure Whole (map : MemoryMap) : Prop where
  base_pos : 0 < map.bufferHeapBase
  base_mod : map.bufferHeapBase % 32 = 0
  size_pos : 0 < map.bufferHeapSize
  size_mod : map.bufferHeapSize % 1024 = 0
  top_le : map.sysMemTop ≤ 2 ^ 32

theorem whole_cymem256k : cymem256k.Whole := by constructor <;> decide

theorem whole_cymem512k : cymem512k.Whole := by constructor <;> decide

end MemoryMap

/-- `FX3_CACHE_LINE_SZ`. -/
def cacheLineSz : ℕ := 32

/-- `ROUND_UP`. -/
def roundUp (s n : BitVec 32) : BitVec 32 := (s + n - 1#32) &&& ~~~(n - 1#32)

/-! ## The buffer manager -/

/-- `CyU3PDmaBufMgr_t`, without the lock. -/
structure DmaBufMgr where
  startAddr : ℕ
  regionSize : ℕ
  /-- The status words, `none` for a null pointer. -/
  usedStatus : Option (List (BitVec 32))
  statusSize : ℕ
  searchPos : ℕ

/-- The buffer manager, the variables for the checks, and the memory. -/
structure BufferHeap where
  bufferManager : DmaBufMgr
  checks : Tracking
  mem : Memory

/-- `glBufferManager` before the heap is initialized. -/
def DmaBufMgr.zero : DmaBufMgr := ⟨0, 0, none, 0, 0⟩

/-- `CyU3PDmaBufferInit`, if the mutex can be created and the memory for the status be had. -/
def dmaBufferInit (map : MemoryMap) (mutexCreate memAlloc : Bool) (m : DmaBufMgr) : DmaBufMgr :=
  if m.startAddr ≠ 0 ∧ m.regionSize ≠ 0 then m
  else if ¬ mutexCreate then m
  else
    let lines := map.bufferHeapSize / cacheLineSz
    let size := (roundUp (BitVec.ofNat 32 lines) 32).toNat / 32
    if ¬ memAlloc then { m with usedStatus := none }
    else
      let usedStatus := List.replicate size 0#32
      let usedStatus :=
        if lines % 32 ≠ 0 then
          usedStatus.set (size - 1) (~~~(1#32 <<< (32 - lines % 32) - 1#32))
        else usedStatus
      { usedStatus := some usedStatus
        startAddr := map.bufferHeapBase
        regionSize := map.bufferHeapSize
        statusSize := size
        searchPos := 0 }

/-- The size of a block, with the header and the footer if there are checks. -/
def blkSize (layout : Layout) (enableChecks : Bool) (size : BitVec 16) : BitVec 32 :=
  let blkSize := size.setWidth 32
  if enableChecks then roundUp blkSize 4 + BitVec.ofNat 32 (layout.size + 4) else blkSize

/-- The number of cache lines for a block.  The minimum size that can be handled is two. -/
def blkLines (blkSize : BitVec 32) : ℕ :=
  (if blkSize.toNat ≤ cacheLineSz then 2 else (blkSize.toNat + cacheLineSz - 1) / cacheLineSz) %
    65536

/-- `CyU3PDmaBufferAlloc`, if it gets the lock: the pointer it returns. -/
def dmaBufferAlloc (layout : Layout) (lock : Bool) (size : BitVec 16) (s : BufferHeap) :
    Option (BufferHeap × ℕ) := do
  if ¬ lock then return (s, 0)
  let m := s.bufferManager
  if m.startAddr = 0 ∨ m.regionSize = 0 then return (s, 0)
  let blkSize := blkSize layout s.checks.enableChecks size
  let size := blkLines blkSize
  let usedStatus ← m.usedStatus
  let r ← search usedStatus m.statusSize size (32 * m.statusSize)
    ⟨m.searchPos, 0, 0, 0, 0, m.searchPos⟩
  let m := { m with searchPos := r.searchPos }
  if r.count ≠ (size + 1) % 65536 then return ({ s with bufferManager := m }, 0)
  let usedStatus ← dmaBufMgrSetStatus usedStatus r.start (size - 1) true
  let s := { s with bufferManager := { m with usedStatus := some usedStatus } }
  let ptr := m.startAddr + r.start * 32
  if ¬ s.checks.enableChecks then return (s, ptr)
  let (checks, mem) := s.checks.store layout s.mem ptr blkSize.toNat
  return ({ s with checks := checks, mem := mem }, ptr + layout.size)

/-- The loop of `CyU3PDmaBufferFree` that counts consecutive ones.  No more than `fuel` bits are
looked at. -/
def countOnes (usedStatus : List (BitVec 32)) (statusSize : ℕ) :
    (fuel wordnum bitnum count : ℕ) → Option ℕ
  | 0, wordnum, _, count => if wordnum < statusSize then none else some count
  | fuel + 1, wordnum, bitnum, count =>
    if wordnum < statusSize then
      match usedStatus[wordnum]? with
      | none => none
      | some word =>
        if word &&& 1#32 <<< bitnum ≠ 0#32 then
          if bitnum + 1 = 32 then countOnes usedStatus statusSize fuel (wordnum + 1) 0 (count + 1)
          else countOnes usedStatus statusSize fuel wordnum (bitnum + 1) (count + 1)
        else some count
    else some count

/-- What `CyU3PDmaBufferFree` does for the checks: the block, and what the callback is called
with. -/
def BufferHeap.untrack (layout : Layout) (s : BufferHeap) (buffer : ℕ) :
    BufferHeap × ℕ × List ℕ :=
  if s.checks.enableChecks then
    let blockP := buffer - layout.size
    let (checks, mem, bad) := s.checks.drop layout s.mem blockP
    ({ s with checks := checks, mem := mem }, blockP, bad)
  else (s, buffer, [])

/-- `CyU3PDmaBufferFree`, if it gets the lock: what it returns, and what the callback is called
with. -/
def dmaBufferFree (layout : Layout) (map : MemoryMap) (lock : Bool) (buffer : ℕ) (s : BufferHeap) :
    Option (BufferHeap × Int × List ℕ) := do
  if buffer < map.bufferHeapBase then return (s, -1, [])
  if ¬ lock then return (s, -1, [])
  let (s, buffer, bad) := s.untrack layout buffer
  let m := s.bufferManager
  if ¬ (m.startAddr < buffer ∧ buffer < m.startAddr + m.regionSize) then return (s, -1, bad)
  let usedStatus ← m.usedStatus
  let start := (buffer - m.startAddr) / 32
  let count ← countOnes usedStatus m.statusSize (32 * m.statusSize) (start / 32) (start % 32) 0
  let usedStatus ← dmaBufMgrSetStatus usedStatus start count false
  let m := { m with usedStatus := some usedStatus, searchPos := 0 }
  return ({ s with bufferManager := m }, 0, bad)

/-- `CyU3PDmaBufferDeInit`, if it gets the lock. -/
def dmaBufferDeInit (lock : Bool) (s : BufferHeap) : BufferHeap :=
  if ¬ lock then s
  else
    { s with
      bufferManager :=
        { s.bufferManager with
          startAddr := 0, regionSize := 0, usedStatus := none, statusSize := 0 }
      checks := { s.checks with allocCnt := 0, freeCnt := 0, inUseList := 0 } }

/-- `CyU3PBufEnableChecks`, which only does something before the heap is initialized: whether it
returns `CY_U3P_SUCCESS`. -/
def bufEnableChecks (enable badCb : Bool) (s : BufferHeap) : BufferHeap × Bool :=
  if s.bufferManager.usedStatus = none then
    ({ s with checks := { s.checks with enableChecks := enable, badCb := badCb } }, true)
  else (s, false)

/-! ## Sizes -/

section Sizes

variable {k : ℕ} {x : BitVec 32}

theorem toNat_and_not_mask (hk : k < 32) :
    (x &&& ~~~(BitVec.ofNat 32 (2 ^ k) - 1#32)).toNat = x.toNat / 2 ^ k * 2 ^ k := by
  have hmask : BitVec.ofNat 32 (2 ^ k) - 1#32 = BitVec.ofNat 32 (2 ^ k - 1) := by
    have hlt : 2 ^ k < 2 ^ 32 := Nat.pow_lt_pow_right (by omega) hk
    have hpos : 0 < 2 ^ k := Nat.two_pow_pos k
    refine BitVec.eq_of_toNat_eq ?_
    rw [BitVec.toNat_sub]
    simp only [BitVec.toNat_ofNat]
    omega
  rw [hmask]
  refine Nat.eq_of_testBit_eq fun i ↦ ?_
  rw [Nat.mul_comm, Nat.testBit_two_pow_mul, Nat.testBit_div_two_pow, BitVec.testBit_toNat,
    BitVec.testBit_toNat, BitVec.getLsbD_and, BitVec.getLsbD_not, BitVec.getLsbD_ofNat,
    Nat.testBit_two_pow_sub_one]
  by_cases hki : k ≤ i
  · rw [Nat.sub_add_cancel hki]
    by_cases hi : i < 32
    · simp [hi, hki, Nat.not_lt.mpr hki]
    · simp [BitVec.getLsbD_of_ge x i (by omega)]
  · simp [hki, Nat.not_le.mp hki]

/-- `ROUND_UP` rounds up, unless the sum overflows. -/
theorem toNat_roundUp (hk : k < 32) (hx : x.toNat + (2 ^ k - 1) < 2 ^ 32) :
    (roundUp x (BitVec.ofNat 32 (2 ^ k))).toNat = (x.toNat + (2 ^ k - 1)) / 2 ^ k * 2 ^ k := by
  have hlt : 2 ^ k < 2 ^ 32 := Nat.pow_lt_pow_right (by omega) hk
  have hpos : 0 < 2 ^ k := Nat.two_pow_pos k
  have hsum : (x + BitVec.ofNat 32 (2 ^ k) - 1#32).toNat = x.toNat + (2 ^ k - 1) := by
    rw [BitVec.toNat_sub, BitVec.toNat_add]
    simp only [BitVec.toNat_ofNat]
    omega
  rw [roundUp, toNat_and_not_mask hk, hsum]

theorem toNat_blkSize (layout : Layout) (enableChecks : Bool) (size : BitVec 16) :
    (blkSize layout enableChecks size).toNat =
      if enableChecks then (size.toNat + 3) / 4 * 4 + (layout.size + 4) else size.toNat := by
  have hsize := size.isLt
  have hle := layout.size_le
  have hwide : (size.setWidth 32).toNat = size.toNat := by
    rw [BitVec.toNat_setWidth]
    omega
  cases enableChecks with
  | false => simpa [blkSize] using hwide
  | true =>
    have hround := toNat_roundUp (k := 2) (x := size.setWidth 32) (by omega) (by omega)
    rw [hwide] at hround
    simp only [blkSize, ↓reduceIte, BitVec.toNat_add, BitVec.toNat_ofNat]
    rw [show (4 : BitVec 32) = BitVec.ofNat 32 (2 ^ 2) from rfl, hround]
    omega

/-- A block takes at least two lines and at most 2081, and they have room for it. -/
theorem blkLines_bounds (layout : Layout) (enableChecks : Bool) (size : BitVec 16) :
    2 ≤ blkLines (blkSize layout enableChecks size) ∧
      blkLines (blkSize layout enableChecks size) ≤ 2081 ∧
      (blkSize layout enableChecks size).toNat ≤
        32 * blkLines (blkSize layout enableChecks size) := by
  have hsize := size.isLt
  have hle : (blkSize layout enableChecks size).toNat ≤ 66564 := by
    have hle := layout.size_le
    rw [toNat_blkSize]
    split <;> omega
  unfold blkLines cacheLineSz
  split <;> omega

end Sizes

/-! ## The blocks -/

/-- The status bits by lines. -/
def DmaBufMgr.bits (m : DmaBufMgr) : ℕ → Bool := marks (m.usedStatus.getD [])

/-- The heap is initialized, and its status bits stand for the blocks `bs`. -/
structure Holds (map : MemoryMap) (m : DmaBufMgr) (bs : List Block) : Prop where
  startAddr : m.startAddr = map.bufferHeapBase
  regionSize : m.regionSize = map.bufferHeapSize
  usedStatus : ∃ usedStatus, m.usedStatus = some usedStatus ∧ usedStatus.length = m.statusSize
  statusSize : 1024 * m.statusSize = map.bufferHeapSize
  searchPos_lt : m.searchPos < m.statusSize
  marks : Marks (32 * m.statusSize) m.bits bs
  start_pos : ∀ b ∈ bs, 0 < b.start
  searchPos_nil : bs = [] → m.searchPos = 0

section Holds

variable {map : MemoryMap} {m : DmaBufMgr} {bs : List Block} {s : BufferHeap} {layout : Layout}

theorem marks_replicate (n : ℕ) : Fx3.marks (List.replicate n 0#32) = fun _ ↦ false := by
  funext i
  rw [Fx3.marks, List.getD_eq_getElem?_getD, List.getElem?_replicate]
  split <;> simp

/-- The number of status words. -/
theorem statusSize_eq {lines : ℕ} (h : lines + 31 < 2 ^ 32) :
    (roundUp (BitVec.ofNat 32 lines) 32).toNat / 32 = (lines + 31) / 32 := by
  have hlines : (BitVec.ofNat 32 lines).toNat = lines := by
    rw [BitVec.toNat_ofNat, Nat.mod_eq_of_lt (by omega)]
  have hround := toNat_roundUp (k := 5) (x := BitVec.ofNat 32 lines) (by omega) (by omega)
  rw [hlines] at hround
  rw [show (32 : BitVec 32) = BitVec.ofNat 32 (2 ^ 5) from rfl, hround]
  omega

/-- **The heap is empty when it has been initialized.** -/
theorem holds_dmaBufferInit (hmap : map.Whole) (hm : m.startAddr = 0) :
    Holds map (dmaBufferInit map true true m) [] := by
  have hpos := hmap.size_pos
  have hmod := hmap.size_mod
  have hlt : map.bufferHeapSize < 2 ^ 32 := by
    have := hmap.top_le
    have := hmap.base_pos
    unfold MemoryMap.bufferHeapSize at *
    omega
  have hinit : dmaBufferInit map true true m =
      ⟨map.bufferHeapBase, map.bufferHeapSize,
        some (List.replicate (map.bufferHeapSize / 1024) 0#32), map.bufferHeapSize / 1024, 0⟩ := by
    have hlines : map.bufferHeapSize / cacheLineSz % 32 = 0 := by
      unfold cacheLineSz
      omega
    have hsize : (roundUp (BitVec.ofNat 32 (map.bufferHeapSize / cacheLineSz)) 32).toNat / 32 =
        map.bufferHeapSize / 1024 := by
      unfold cacheLineSz at *
      rw [statusSize_eq (by omega)]
      omega
    simp only [dmaBufferInit, hm, ne_eq, not_true_eq_false, false_and, ↓reduceIte, hsize, hlines]
  rw [hinit]
  refine ⟨rfl, rfl, ⟨_, rfl, List.length_replicate⟩, ?_, ?_, ?_, by simp, fun _ ↦ rfl⟩
  · dsimp only
    omega
  · dsimp only
    omega
  · rw [DmaBufMgr.bits, Option.getD_some, marks_replicate]
    exact marks_nil _

/-- The status bits after the heap has been initialized, when they do not fill the last word. -/
theorem bits_dmaBufferInit (hm : m.startAddr = 0) {lines i : ℕ}
    (hlines : lines = map.bufferHeapSize / cacheLineSz) (hlt : lines + 31 < 2 ^ 32)
    (hpart : lines % 32 ≠ 0) (hi : i < 32 * ((lines + 31) / 32)) :
    (dmaBufferInit map true true m).bits i =
      decide (32 * ((lines + 31) / 32) ≤ i + lines % 32) := by
  have hr : lines % 32 < 32 := Nat.mod_lt _ (by omega)
  have hsize := statusSize_eq hlt
  have hmask : 1#32 <<< (32 - lines % 32) - 1#32 = maskBits 0 (32 - lines % 32) :=
    mask_zero (by omega)
  simp only [DmaBufMgr.bits, dmaBufferInit, hm, ne_eq, not_true_eq_false, false_and, ↓reduceIte,
    ← hlines, hsize, hpart, not_false_eq_true, Option.getD_some, hmask]
  rw [marks_set (by rw [List.length_replicate]; omega), marks_replicate]
  by_cases hw : i / 32 = (lines + 31) / 32 - 1
  · rw [if_pos hw, BitVec.getLsbD_not, getLsbD_maskBits (Nat.zero_le _) (Nat.mod_lt _ (by omega))]
    simp only [Nat.mod_lt i (show 32 > 0 by omega), decide_true, Bool.true_and, Nat.zero_le,
      true_and]
    rw [← decide_not]
    exact decide_eq_decide.mpr (by omega)
  · rw [if_neg hw]
    exact (decide_eq_false (by omega)).symm

/-- **The lines behind the heap, and no others, are unavailable from the start** exactly if the last
word is full or half full. -/
theorem bits_dmaBufferInit_iff (hm : m.startAddr = 0) {lines : ℕ}
    (hlines : lines = map.bufferHeapSize / cacheLineSz) (hlt : lines + 31 < 2 ^ 32)
    (hpos : 0 < lines) :
    (∀ i < 32 * ((lines + 31) / 32),
      (dmaBufferInit map true true m).bits i = decide (lines ≤ i)) ↔
      lines % 32 = 0 ∨ lines % 32 = 16 := by
  by_cases hpart : lines % 32 = 0
  · have hbits : (dmaBufferInit map true true m).bits = fun _ ↦ false := by
      simp only [DmaBufMgr.bits, dmaBufferInit, hm, ne_eq, not_true_eq_false, false_and, ↓reduceIte,
        ← hlines, hpart, Option.getD_some]
      exact marks_replicate _
    simp only [hpart, true_or, iff_true, hbits]
    exact fun i hi ↦ (decide_eq_false (by omega)).symm
  · simp only [hpart, false_or]
    constructor
    · intro h
      -- the first line behind the heap, and the last line of it
      have hfirst := h lines (by omega)
      have hlast := h (lines - 1) (by omega)
      rw [bits_dmaBufferInit hm hlines hlt hpart (by omega), decide_eq_decide] at hfirst hlast
      have := hfirst.mpr (Nat.le_refl _)
      have := mt hlast.mp (by omega)
      omega
    · intro h16 i hi
      rw [bits_dmaBufferInit hm hlines hlt hpart hi, decide_eq_decide]
      omega

/-- A heap of half a status word: the lines behind it are unavailable. -/
theorem bits_dmaBufferInit_half :
    16 = MemoryMap.bufferHeapSize ⟨0x40038000, 0x8000, 0x40040200⟩ / cacheLineSz ∧
      ∀ i < 32, (dmaBufferInit ⟨0x40038000, 0x8000, 0x40040200⟩ true true .zero).bits i =
        decide (16 ≤ i) := by
  have hlines : 16 = MemoryMap.bufferHeapSize ⟨0x40038000, 0x8000, 0x40040200⟩ / cacheLineSz := rfl
  exact ⟨hlines, (bits_dmaBufferInit_iff rfl hlines (by decide) (by decide)).mpr (.inr rfl)⟩

/-- The words that the marks are read from. -/
theorem Holds.exists_usedStatus (h : Holds map m bs) :
    ∃ usedStatus, m.usedStatus = some usedStatus ∧ usedStatus.length = m.statusSize ∧
      m.bits = Fx3.marks usedStatus := by
  obtain ⟨usedStatus, hu, hlen⟩ := h.usedStatus
  exact ⟨usedStatus, hu, hlen, by rw [DmaBufMgr.bits, hu, Option.getD_some]⟩

/-- The blocks determine the status bits. -/
theorem Holds.bits_eq {m' : DmaBufMgr} {bs' : List Block} (h : Holds map m bs)
    (h' : Holds map m' bs') (hbs : ∀ b, b ∈ bs ↔ b ∈ bs') : m.bits = m'.bits := by
  funext i
  rw [Bool.eq_iff_iff, h.marks.marked_iff, h'.marks.marked_iff]
  simp only [hbs]

/-- The blocks determine the buffer manager, except for where the next search starts. -/
theorem Holds.ext {m' : DmaBufMgr} {bs' : List Block} (h : Holds map m bs) (h' : Holds map m' bs')
    (hbs : ∀ b, b ∈ bs ↔ b ∈ bs') (hpos : m.searchPos = m'.searchPos) : m = m' := by
  obtain ⟨usedStatus, hu, hlen, hbits⟩ := h.exists_usedStatus
  obtain ⟨usedStatus', hu', hlen', hbits'⟩ := h'.exists_usedStatus
  have hstart := h.startAddr.trans h'.startAddr.symm
  have hregion := h.regionSize.trans h'.regionSize.symm
  have hsize : m.statusSize = m'.statusSize := by
    have := h.statusSize
    have := h'.statusSize
    omega
  have hwords : usedStatus = usedStatus' :=
    eq_of_marks_eq (by rw [hlen, hlen', hsize]) (by rw [← hbits, ← hbits', h.bits_eq h' hbs])
  cases m
  cases m'
  simp only [DmaBufMgr.mk.injEq] at *
  exact ⟨hstart, hregion, by rw [hu, hu', hwords], hsize, hpos⟩

theorem Holds.searchPos_zero (h : Holds map m bs) : Holds map { m with searchPos := 0 } bs where
  startAddr := h.startAddr
  regionSize := h.regionSize
  usedStatus := h.usedStatus
  statusSize := h.statusSize
  searchPos_lt := Nat.lt_of_le_of_lt (Nat.zero_le _) h.searchPos_lt
  marks := h.marks
  start_pos := h.start_pos
  searchPos_nil _ := rfl

/-- The number of lines for a request. -/
def BufferHeap.lines (layout : Layout) (s : BufferHeap) (size : BitVec 16) : ℕ :=
  blkLines (blkSize layout s.checks.enableChecks size)

/-- Where the search for a request ends: the cell before the block. -/
def BufferHeap.place (layout : Layout) (s : BufferHeap) (size : BitVec 16) : Option ℕ :=
  firstFree s.bufferManager.bits (s.lines layout size + 1) s.bufferManager.statusSize
    s.bufferManager.searchPos

/-- The variables of the search, when it is over. -/
theorem Holds.search_eq (layout : Layout) (h : Holds map s.bufferManager bs) (size : BitVec 16) :
    ∃ usedStatus r, s.bufferManager.usedStatus = some usedStatus ∧
      usedStatus.length = s.bufferManager.statusSize ∧
      s.bufferManager.bits = Fx3.marks usedStatus ∧
      search usedStatus s.bufferManager.statusSize (s.lines layout size)
        (32 * s.bufferManager.statusSize)
        ⟨s.bufferManager.searchPos, 0, 0, 0, 0, s.bufferManager.searchPos⟩ = some r ∧
      match s.place layout size with
      | some z => r.count = s.lines layout size + 1 ∧ r.start = z + 1 ∧
          r.searchPos = (z + s.lines layout size) / 32
      | none => r.count ≤ s.lines layout size ∧ r.searchPos = s.bufferManager.searchPos := by
  obtain ⟨usedStatus, hu, hlen, hbits⟩ := h.exists_usedStatus
  have hmax := (blkLines_bounds layout s.checks.enableChecks size).2.1
  obtain ⟨r, hr, hspec⟩ := Fx3.search_eq hlen (s.lines layout size)
    (by unfold BufferHeap.lines; omega) h.searchPos_lt
  exact ⟨usedStatus, r, hu, hlen, hbits, hr, by rw [BufferHeap.place, hbits]; exact hspec⟩

theorem Holds.not_zero (h : Holds map m bs) (hmap : map.Whole) :
    ¬ (m.startAddr = 0 ∨ m.regionSize = 0) := by
  have := hmap.base_pos
  have := hmap.size_pos
  rw [h.startAddr, h.regionSize]
  omega

/-- Nothing happens when there is no room. -/
theorem Holds.alloc_none (layout : Layout) (h : Holds map s.bufferManager bs) (hmap : map.Whole)
    {size : BitVec 16} (hz : s.place layout size = none) :
    dmaBufferAlloc layout true size s = some (s, 0) := by
  obtain ⟨usedStatus, r, hu, hlen, hbits, hr, hspec⟩ := h.search_eq layout size
  obtain ⟨-, hmax, -⟩ := blkLines_bounds layout s.checks.enableChecks size
  rw [hz] at hspec
  obtain ⟨hcount, hpos⟩ := hspec
  unfold BufferHeap.lines at *
  have hne : r.count ≠ (blkLines (blkSize layout s.checks.enableChecks size) + 1) % 65536 := by
    omega
  simp only [dmaBufferAlloc, not_true_eq_false, ↓reduceIte, h.not_zero hmap, hu, hr, hne, hpos,
    Option.bind_eq_bind, Option.bind_some, ne_eq, not_false_eq_true, Option.pure_def]
  rw [← hu]

/-- **A new block is taken at the first place where there is room**, and the status bits stand for
it and the others. -/
theorem Holds.alloc_some (layout : Layout) (h : Holds map s.bufferManager bs) (hmap : map.Whole)
    {size : BitVec 16} {z : ℕ} (hz : s.place layout size = some z) :
    ∃ m', Holds map m' (⟨z + 1, s.lines layout size⟩ :: bs) ∧
      dmaBufferAlloc layout true size s =
        let addr := map.bufferHeapBase + (z + 1) * 32
        if s.checks.enableChecks then
          let stored := s.checks.store layout s.mem addr (blkSize layout true size).toNat
          some (⟨m', stored.1, stored.2⟩, addr + layout.size)
        else some ({ s with bufferManager := m' }, addr) := by
  obtain ⟨usedStatus, r, hu, hlen, hbits, hr, hspec⟩ := h.search_eq layout size
  obtain ⟨htwo, hmax, -⟩ := blkLines_bounds layout s.checks.enableChecks size
  rw [hz] at hspec
  obtain ⟨hcount, hstart, hpos⟩ := hspec
  obtain ⟨-, hle, hfree⟩ := firstFree_eq_some (Nat.succ_pos _) (Nat.le_of_lt h.searchPos_lt) hz
  have heq : r.count = (s.lines layout size + 1) % 65536 := by
    unfold BufferHeap.lines at *
    omega
  obtain ⟨usedStatus', hset, hlen', hmarks⟩ := marks_setStatus true
    (show z + 1 + (s.lines layout size - 1) ≤ 32 * usedStatus.length by omega)
  refine ⟨{ s.bufferManager with usedStatus := some usedStatus', searchPos := r.searchPos }, ?_, ?_⟩
  · refine ⟨h.startAddr, h.regionSize, ⟨usedStatus', rfl, hlen'.trans hlen⟩, h.statusSize, ?_, ?_,
      fun b hb ↦ ?_, fun hnil ↦ absurd hnil (by simp)⟩
    · dsimp only
      omega
    · change Marks (32 * s.bufferManager.statusSize) (Fx3.marks usedStatus') _
      rw [hmarks, ← hbits]
      exact h.marks.insert hfree htwo (by omega)
    · rcases List.mem_cons.mp hb with rfl | hb
      · exact Nat.succ_pos z
      · exact h.start_pos b hb
  · unfold BufferHeap.lines at *
    simp only [dmaBufferAlloc, not_true_eq_false, ↓reduceIte, h.not_zero hmap, hu, hr, heq, hstart,
      hset, Option.bind_eq_bind, Option.bind_some, ne_eq, Option.pure_def]
    cases hc : s.checks.enableChecks <;> simp [h.startAddr]

/-- The loop of `CyU3PDmaBufferFree` counts the ones that follow one another. -/
theorem countOnes_eq {usedStatus : List (BitVec 32)} {n fuel p : ℕ} (count : ℕ)
    (hlen : usedStatus.length = n) (hfuel : 32 * n ≤ p + fuel) :
    ∃ c, countOnes usedStatus n fuel (p / 32) (p % 32) count = some (count + c) ∧
      Run (Fx3.marks usedStatus) p c := by
  have hend : ∀ p, n ≤ p / 32 → Fx3.marks usedStatus p = false := fun p hp ↦ by
    rw [Fx3.marks, List.getD_eq_getElem?_getD, List.getElem?_eq_none (by omega)]
    simp
  induction fuel generalizing p count with
  | zero =>
    refine ⟨0, by rw [countOnes, if_neg (by omega), Nat.add_zero], fun i hi hlt ↦ ?_, ?_⟩
    · omega
    · exact hend _ (by omega)
  | succ fuel ih =>
    rw [countOnes]
    by_cases hp : p / 32 < n
    · have hlt : p / 32 < usedStatus.length := by omega
      have hzero : usedStatus[p / 32] &&& 1#32 <<< (p % 32) = 0#32 ↔
          Fx3.marks usedStatus p = false := by
        rw [and_bit_eq_zero _ (Nat.mod_lt _ (by omega))]
        simp [Fx3.marks, hlt]
      rw [if_pos hp, List.getElem?_eq_getElem hlt]
      dsimp only
      by_cases hm : Fx3.marks usedStatus p = false
      · rw [if_neg (not_not.mpr (hzero.mpr hm))]
        exact ⟨0, rfl, fun i hi hlt ↦ by omega, hm⟩
      · obtain ⟨c, hc, hrun⟩ := ih (p := p + 1) (count + 1) (by omega)
        refine ⟨c + 1, ?_, fun i hi hlt ↦ ?_, by rw [← hrun.closed]; congr 1; omega⟩
        · rw [if_pos (mt hzero.mp hm), show count + (c + 1) = count + 1 + c by omega, ← hc]
          split
          · rw [show (p + 1) / 32 = p / 32 + 1 by omega, show (p + 1) % 32 = 0 by omega]
          · rw [show (p + 1) / 32 = p / 32 by omega, show (p + 1) % 32 = p % 32 + 1 by omega]
        · rcases Nat.eq_or_lt_of_le hi with rfl | hi
          · simpa using hm
          · exact hrun.marked i hi (by omega)
    · rw [if_neg hp]
      exact ⟨0, rfl, fun i hi hlt ↦ by omega, hend _ (by omega)⟩

/-- The line that a pointer to the heap is in. -/
def MemoryMap.line (map : MemoryMap) (buffer : ℕ) : ℕ := (buffer - map.bufferHeapBase) / 32

/-- The end of `CyU3PDmaBufferFree`, from the range check on. -/
theorem Holds.clear (h : Holds map m bs) {buffer : ℕ}
    (hb : map.bufferHeapBase < buffer ∧ buffer < map.sysMemTop) :
    ∃ usedStatus count usedStatus', m.usedStatus = some usedStatus ∧
      countOnes usedStatus m.statusSize (32 * m.statusSize) (map.line buffer / 32)
        (map.line buffer % 32) 0 = some count ∧
      dmaBufMgrSetStatus usedStatus (map.line buffer) count false = some usedStatus' ∧
      Holds map { m with usedStatus := some usedStatus', searchPos := 0 }
        (bs.filterMap (Block.cut (map.line buffer))) := by
  obtain ⟨usedStatus, hu, hlen, hbits⟩ := h.exists_usedStatus
  have hsize := h.statusSize
  have hline : map.line buffer < 32 * m.statusSize := by
    unfold MemoryMap.line MemoryMap.bufferHeapSize at *
    omega
  obtain ⟨count, hcount, hrun⟩ := countOnes_eq (p := map.line buffer) 0 hlen
    (Nat.le_add_left (32 * m.statusSize) _)
  rw [Nat.zero_add] at hcount
  have hle : map.line buffer + count ≤ 32 * usedStatus.length := by
    rcases Nat.eq_zero_or_pos count with h0 | h0
    · omega
    · have hlast := hrun.marked (map.line buffer + count - 1) (by omega) (by omega)
      rw [← hbits] at hlast
      have := h.marks.lt_of_marked hlast
      omega
  obtain ⟨usedStatus', hset, hlen', hmarks⟩ := marks_setStatus false hle
  refine ⟨usedStatus, count, usedStatus', hu, hcount, hset, h.startAddr, h.regionSize,
    ⟨usedStatus', rfl, hlen'.trans hlen⟩, hsize, ?_, ?_, fun b' hb' ↦ ?_, fun _ ↦ rfl⟩
  · have := h.searchPos_lt
    dsimp only
    omega
  · change Marks (32 * m.statusSize) (Fx3.marks usedStatus') _
    rw [hmarks, ← hbits]
    exact h.marks.cut (hbits ▸ hrun)
  · obtain ⟨b, hb, hcut⟩ := List.mem_filterMap.mp hb'
    rw [(Block.cut_eq_some hcut).1]
    exact h.start_pos b hb

theorem untrack_bufferManager (buffer : ℕ) :
    (s.untrack layout buffer).1.bufferManager = s.bufferManager := by
  unfold BufferHeap.untrack
  split <;> rfl

theorem Holds.top_eq (h : Holds map m bs) (hmap : map.Whole) :
    m.startAddr + m.regionSize = map.sysMemTop := by
  have := hmap.size_pos
  have := h.startAddr
  have := h.regionSize
  unfold MemoryMap.bufferHeapSize at *
  omega

/-- A pointer outside the heap is refused. -/
theorem Holds.free_of_not_mem (layout : Layout) (h : Holds map s.bufferManager bs)
    (hmap : map.Whole) {buffer : ℕ} (hge : map.bufferHeapBase ≤ buffer)
    (hp : ¬ (map.bufferHeapBase < (s.untrack layout buffer).2.1 ∧
      (s.untrack layout buffer).2.1 < map.sysMemTop)) :
    dmaBufferFree layout map true buffer s =
      some ((s.untrack layout buffer).1, -1, (s.untrack layout buffer).2.2) := by
  rw [dmaBufferFree, if_neg (Nat.not_lt.mpr hge)]
  simp only [not_true_eq_false, ↓reduceIte, untrack_bufferManager, h.top_eq hmap]
  rw [h.startAddr, if_pos hp]
  rfl

/-- **A pointer that is freed ends the block it lies in, and no other block is touched.** -/
theorem Holds.free (layout : Layout) (h : Holds map s.bufferManager bs) (hmap : map.Whole)
    {buffer : ℕ} (hge : map.bufferHeapBase ≤ buffer)
    (hp : map.bufferHeapBase < (s.untrack layout buffer).2.1 ∧
      (s.untrack layout buffer).2.1 < map.sysMemTop) :
    ∃ m', Holds map m'
        (bs.filterMap (Block.cut (map.line (s.untrack layout buffer).2.1))) ∧
      m'.searchPos = 0 ∧
      dmaBufferFree layout map true buffer s =
        some ({ (s.untrack layout buffer).1 with bufferManager := m' }, 0,
          (s.untrack layout buffer).2.2) := by
  obtain ⟨usedStatus, count, usedStatus', hu, hcount, hset, hholds⟩ := h.clear hp
  refine ⟨_, hholds, rfl, ?_⟩
  rw [dmaBufferFree, if_neg (Nat.not_lt.mpr hge)]
  simp only [not_true_eq_false, ↓reduceIte, untrack_bufferManager, h.top_eq hmap]
  rw [h.startAddr, if_neg (not_not.mpr hp)]
  unfold MemoryMap.line at hcount hset
  simp only [hu, hcount, hset, Option.bind_eq_bind, Option.bind_some, Option.pure_def]

end Holds

end Fx3
end Usb3FpgaCard
