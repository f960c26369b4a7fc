import Usb3FpgaCard.Fx3.Buffers

/-!
# The driver heap: `fx3/cyfxtx.c`

`CyU3PMemInit`, `CyU3PMemAlloc`, `CyU3PMemFree` and the checks around them.  The memory itself is
handed out by a byte pool of the RTOS, which is not determined here: `byteAlloc` is what it returns.
A pool that keeps to its contract returns a block of the size it was asked for, in the heap and
apart from the blocks that are in use.

As in the buffer heap, the list runs through the blocks in use, and it has exactly these as long as
the pool and the users keep to what they may do (`Reach.tracks`).
-/

set_option autoImplicit false

namespace Usb3FpgaCard
namespace Fx3

open Allocation

/-- The variables of the driver heap, and the memory. -/
structure DriverHeap where
  /-- `glMemPoolInit`. -/
  poolInit : Bool
  checks : Tracking
  mem : Memory

/-- `CyU3PMemEnableChecks`, which only does something before the heap is initialized: whether it
returns `CY_U3P_SUCCESS`. -/
def memEnableChecks (enable badCb : Bool) (s : DriverHeap) : DriverHeap × Bool :=
  if ¬ s.poolInit then
    ({ s with checks := { s.checks with enableChecks := enable, badCb := badCb } }, true)
  else (s, false)

/-- `CyU3PMemInit`. -/
def memInit (s : DriverHeap) : DriverHeap := if ¬ s.poolInit then { s with poolInit := true } else s

/-- What `CyU3PMemAlloc` asks the pool for. -/
def memSize (layout : Layout) (enableChecks : Bool) (size : BitVec 32) : BitVec 32 :=
  let size := roundUp size 4
  if enableChecks then size + BitVec.ofNat 32 (layout.size + 4) else size

/-- `CyU3PMemAlloc`: the pointer it returns. -/
def memAlloc (layout : Layout) (byteAlloc : Option ℕ) (size : BitVec 32) (s : DriverHeap) :
    DriverHeap × ℕ :=
  let size := memSize layout s.checks.enableChecks size
  match byteAlloc with
  | none => (s, 0)
  | some retP =>
    if s.checks.enableChecks then
      let (checks, mem) := s.checks.store layout s.mem retP size.toNat
      ({ s with checks := checks, mem := mem }, retP + layout.size)
    else (s, retP)

/-- `CyU3PMemFree`: what the callback is called with, and what is given back to the pool. -/
def memFree (layout : Layout) (map : MemoryMap) (memP : ℕ) (s : DriverHeap) :
    DriverHeap × List ℕ × Option ℕ :=
  if memP < map.memHeapBase then (s, [], none)
  else if s.checks.enableChecks then
    let blockP := memP - layout.size
    let (checks, mem, bad) := s.checks.drop layout s.mem blockP
    ({ s with checks := checks, mem := mem }, bad, some blockP)
  else (s, [], some memP)

/-- `CyU3PMemGetCounts`. -/
def memGetCounts (s : DriverHeap) : BitVec 32 × BitVec 32 := (s.checks.allocCnt, s.checks.freeCnt)

/-- `CyU3PMemGetActiveList`. -/
def memGetActiveList (s : DriverHeap) : ℕ := s.checks.inUseList

/-- `CyU3PMemCorruptionCheck`, for no more than `fuel` blocks. -/
def memCorruptionCheck (layout : Layout) (map : MemoryMap) (fuel : ℕ) (s : DriverHeap) :
    Option (Bool × List ℕ) :=
  s.checks.corruptionCheck layout s.mem map.memHeapBase map.bufferHeapBase fuel s.checks.inUseList

/-- What `CyU3PFreeHeaps` does to the driver heap. -/
def DriverHeap.giveUp (s : DriverHeap) : DriverHeap :=
  { s with
    poolInit := false
    checks := { s.checks with allocCnt := 0, freeCnt := 0, inUseList := 0 } }

/-- `CyU3PFreeHeaps`, which gives up the buffer heap first. -/
def freeHeaps (lock : Bool) (s : DriverHeap) (b : BufferHeap) : DriverHeap × BufferHeap :=
  let b := dmaBufferDeInit lock b
  (s.giveUp, b)

/-! ## Sizes -/

section Sizes

variable {layout : Layout} {size : BitVec 32}

/-- The size, rounded up, with the header and the footer, is below `2 ^ 32`. -/
def NoOverflow (layout : Layout) (size : BitVec 32) : Prop := size.toNat + layout.size + 8 ≤ 2 ^ 32

theorem toNat_memSize (h : NoOverflow layout size) :
    (memSize layout true size).toNat = (size.toNat + 3) / 4 * 4 + (layout.size + 4) := by
  rw [NoOverflow] at h
  have hmod := layout.size_mod
  have hround := toNat_roundUp (k := 2) (x := size) (by omega) (by omega)
  simp only [memSize, ↓reduceIte, BitVec.toNat_add, BitVec.toNat_ofNat]
  rw [show (4 : BitVec 32) = BitVec.ofNat 32 (2 ^ 2) from rfl, hround]
  omega

/-- **There is room between the header and the footer exactly if the size does not overflow.** -/
theorem le_memSize_iff : size.toNat + layout.size + 4 ≤ (memSize layout true size).toNat ↔
    NoOverflow layout size := by
  have hmod := layout.size_mod
  have hle := layout.size_le
  constructor
  · intro h
    have hlt := (memSize layout true size).isLt
    have hround := toNat_roundUp (k := 2) (x := size) (by omega) (by omega)
    have htotal : (memSize layout true size).toNat =
        ((size.toNat + 3) / 4 * 4 + (layout.size + 4)) % 2 ^ 32 := by
      simp only [memSize, ↓reduceIte, BitVec.toNat_add, BitVec.toNat_ofNat]
      rw [show (4 : BitVec 32) = BitVec.ofNat 32 (2 ^ 2) from rfl, hround]
      omega
    rw [NoOverflow]
    omega
  · intro h
    rw [toNat_memSize h]
    omega

end Sizes

/-! ## Runs -/

/-- A call of one of the functions of the driver heap. -/
inductive MemCall where
  /-- `CyU3PMemEnableChecks`. -/
  | enableChecks (enable badCb : Bool)
  /-- `CyU3PMemInit`. -/
  | init
  /-- `CyU3PMemAlloc`, and what the pool returns. -/
  | alloc (byteAlloc : Option ℕ) (size : BitVec 32)
  /-- `CyU3PMemFree`. -/
  | free (memP : ℕ)
  /-- `CyU3PFreeHeaps`. -/
  | freeHeaps
  /-- Somebody writes to the memory. -/
  | write (a : ℕ) (v : BitVec 32)

/-- The heap and the blocks in its list, the newest first. -/
structure DriverSession where
  heap : DriverHeap
  blocks : List MemBlock

namespace DriverSession

variable (layout : Layout) (map : MemoryMap)

/-- A call, and what is in use afterwards. -/
def call (x : DriverSession) : MemCall → DriverSession
  | .enableChecks enable badCb => { x with heap := (memEnableChecks enable badCb x.heap).1 }
  | .init => { x with heap := memInit x.heap }
  | .alloc byteAlloc size =>
    { heap := (memAlloc layout byteAlloc size x.heap).1
      blocks :=
        match byteAlloc with
        | none => x.blocks
        | some retP =>
          if x.heap.checks.enableChecks then ⟨retP, (memSize layout true size).toNat⟩ :: x.blocks
          else x.blocks }
  | .free memP =>
    { heap := (memFree layout map memP x.heap).1
      blocks := x.blocks.filter fun b ↦ b.addr + layout.size ≠ memP }
  | .freeHeaps => { heap := x.heap.giveUp, blocks := [] }
  | .write a v => { x with heap := { x.heap with mem := Function.update x.heap.mem a v } }

/-- The pool hands out the bytes from `retP` on.  They are its own and free, and there is room for
the header and the footer, which is so unless the size overflows (`supplies_of_noOverflow`). -/
def Supplies (x : DriverSession) (retP : ℕ) (size : BitVec 32) : Prop :=
  Fresh layout map.memHeapBase map.bufferHeapBase x.blocks
    ⟨retP, (memSize layout true size).toNat⟩

/-- What the pool and the users may do. -/
def Legal (x : DriverSession) : MemCall → Prop
  | .alloc (some retP) size =>
    x.heap.poolInit = true ∧
      (x.heap.checks.enableChecks = true → x.Supplies layout map retP size)
  | .free memP =>
    x.heap.checks.enableChecks = true → ∃ b ∈ x.blocks, memP = b.addr + layout.size
  | .write a _ => ∀ b ∈ x.blocks, ¬ b.Link layout a
  | _ => True

/-- Before the first call. -/
def start (mem : Memory) : DriverSession where
  heap := ⟨false, ⟨false, 0, 0, 0, false⟩, mem⟩
  blocks := []

/-- The sessions in which nobody does anything else. -/
inductive Reach : DriverSession → Prop
  | start (mem : Memory) : Reach (start mem)
  | call {x : DriverSession} {c : MemCall} (h : Reach x) (hc : x.Legal layout map c) :
      Reach (x.call layout map c)

/-- The list has the blocks in use, and the counters count them. -/
structure Checked (x : DriverSession) : Prop where
  tracks : Tracks layout map.memHeapBase map.bufferHeapBase x.heap.checks x.heap.mem x.blocks
  unchecked : x.heap.checks.enableChecks = false → x.blocks = []
  idle : x.heap.poolInit = false → x.blocks = []
  count : x.heap.checks.allocCnt = x.heap.checks.freeCnt + BitVec.ofNat 32 x.blocks.length

variable {layout map} {x : DriverSession} {c : MemCall}

/-- A pool that has the bytes supplies them if the size does not overflow. -/
theorem supplies_of_noOverflow {retP : ℕ} {size : BitVec 32} (h : NoOverflow layout size)
    (hle : map.memHeapBase ≤ retP) (hmod : retP % 4 = 0)
    (hstop : retP + (memSize layout true size).toNat ≤ map.bufferHeapBase)
    (hapart : ∀ b ∈ x.blocks, MemBlock.Apart ⟨retP, (memSize layout true size).toNat⟩ b) :
    x.Supplies layout map retP size := by
  have hsize := layout.size_mod
  refine ⟨⟨hle, hstop, ?_, hmod, ?_⟩, hapart⟩ <;> dsimp only <;> rw [toNat_memSize h] <;> omega

theorem Checked.of_nil {heap : DriverHeap} (hmap : map.Whole) (hpos : 0 < map.memHeapBase)
    (hhead : heap.checks.inUseList = 0) (hcount : heap.checks.allocCnt = heap.checks.freeCnt) :
    Checked layout map ⟨heap, []⟩ where
  tracks := by
    refine tracks_nil hpos ?_ hhead
    have := hmap.top_le
    have := hmap.size_pos
    unfold MemoryMap.bufferHeapSize at *
    omega
  unchecked _ := rfl
  idle _ := rfl
  count := by simp [hcount]

theorem Checked.call (h : x.Checked layout map) (hmap : map.Whole) (hpos : 0 < map.memHeapBase)
    (hc : x.Legal layout map c) : (x.call layout map c).Checked layout map := by
  have htracks := h.tracks
  have hnil : x.blocks = [] → x.heap.checks.inUseList = 0 ∧
      x.heap.checks.allocCnt = x.heap.checks.freeCnt := fun hb ↦ by
    have hcount := h.count
    rw [hb] at htracks hcount
    exact ⟨htracks.inUseList_nil, by simpa using hcount⟩
  cases c with
  | enableChecks enable badCb =>
    rw [DriverSession.call, memEnableChecks]
    by_cases hp : x.heap.poolInit = true
    · rw [if_neg (not_not.mpr hp)]
      exact h
    · have hb := h.idle (by simpa using hp)
      rw [if_pos hp, hb]
      exact Checked.of_nil hmap hpos (hnil hb).1 (hnil hb).2
  | init =>
    rw [DriverSession.call, memInit]
    by_cases hp : x.heap.poolInit = true
    · rw [if_neg (not_not.mpr hp)]
      exact h
    · rw [if_pos hp]
      exact ⟨htracks, h.unchecked, fun hidle ↦ absurd hidle (by simp), h.count⟩
  | alloc byteAlloc size =>
    cases byteAlloc with
    | none => exact h
    | some retP =>
      obtain ⟨hp, hfresh⟩ := hc
      rw [DriverSession.call, memAlloc]
      dsimp only
      by_cases he : x.heap.checks.enableChecks = true
      · rw [he, if_pos rfl, if_pos rfl]
        refine ⟨htracks.store (hfresh he), fun hf ↦ absurd (he.symm.trans hf) (by simp),
          fun hf ↦ absurd (hp.symm.trans hf) (by simp), ?_⟩
        change x.heap.checks.allocCnt + 1#32 = x.heap.checks.freeCnt + _
        rw [h.count, List.length_cons, BitVec.ofNat_add, BitVec.add_assoc]
      · rw [if_neg he, if_neg he]
        exact h
  | free memP =>
    rw [DriverSession.call, memFree]
    by_cases he : x.heap.checks.enableChecks = true
    · obtain ⟨b, hb, rfl⟩ := hc he
      have hle := (htracks.within b hb).le
      have hblocks : (x.blocks.filter fun c ↦ c.addr + layout.size ≠
          b.addr + layout.size) = x.blocks.erase b := by
        rw [htracks.nodup.erase_eq_filter]
        refine List.filter_congr fun c hcb ↦ ?_
        rw [Bool.eq_iff_iff]
        simp only [ne_eq, Nat.add_right_cancel_iff, decide_eq_true_eq, bne_iff_ne]
        exact not_congr ⟨fun he ↦ htracks.eq_of_addr hcb hb he, fun he ↦ congrArg _ he⟩
      rw [if_neg (by omega), if_pos he, hblocks, Nat.add_sub_cancel]
      refine ⟨htracks.drop hb, fun hf ↦ absurd (he.symm.trans hf) (by simp), fun hf ↦ ?_, ?_⟩
      · exact absurd (h.idle hf ▸ hb) List.not_mem_nil
      · change x.heap.checks.allocCnt =
          x.heap.checks.freeCnt + 1#32 + BitVec.ofNat 32 (x.blocks.erase b).length
        rw [h.count, ← List.length_erase_add_one hb, BitVec.ofNat_add, BitVec.add_assoc,
          BitVec.add_comm 1#32]
    · have hb := h.unchecked (by simpa using he)
      have hsame : (if memP < map.memHeapBase then (x.heap, ([] : List ℕ), none)
          else (x.heap, [], some memP)).1 = x.heap := by split <;> rfl
      simp only [if_neg he]
      rw [hsame, hb]
      exact Checked.of_nil hmap hpos (hnil hb).1 (hnil hb).2
  | freeHeaps => exact Checked.of_nil hmap hpos rfl rfl
  | write a v =>
    exact ⟨htracks.write hc, h.unchecked, h.idle, h.count⟩

/-- **The list has exactly the blocks that are in use**, and the counters differ by their number. -/
theorem Reach.checked (h : Reach layout map x) (hmap : map.Whole) (hpos : 0 < map.memHeapBase) :
    x.Checked layout map := by
  induction h with
  | start mem => exact Checked.of_nil hmap hpos rfl rfl
  | call _ hc ih => exact ih.call hmap hpos hc

/-- The check finds the newest block with a damaged signature, and calls the callback for it, if
there is one; otherwise it succeeds. -/
theorem memCorruptionCheck_eq (h : Reach layout map x) (hmap : map.Whole)
    (hpos : 0 < map.memHeapBase) {fuel : ℕ} (hfuel : x.blocks.length ≤ fuel) :
    memCorruptionCheck layout map fuel x.heap =
      match x.blocks.find? fun b ↦ ¬ x.heap.mem.Intact layout b.addr with
      | none => some (true, [])
      | some b => some (false, x.heap.checks.badBlock layout b.addr) := by
  have hc := h.checked hmap hpos
  exact corruptionCheck_chain hc.tracks (fun _ hb ↦ hb) hc.tracks.lists.chain hfuel

/-- The blocks are where the list says, the counters count them, and the check looks at each. -/
structure Listed (layout : Layout) (map : MemoryMap) (x : DriverSession) : Prop where
  /-- Following the pointers from the first block gives the blocks in use, and both ways agree. -/
  list : (x.heap.checks.links layout x.heap.mem).Chain 0 0 (x.blocks.map MemBlock.addr)
    (memGetActiveList x.heap)
  /-- No byte belongs to two of them. -/
  apart : x.blocks.Pairwise MemBlock.Apart
  counts : (memGetCounts x.heap).1 =
    (memGetCounts x.heap).2 + BitVec.ofNat 32 x.blocks.length
  /-- The newest block with a damaged signature is found, and the callback is called for it. -/
  check : ∀ fuel, x.blocks.length ≤ fuel →
    memCorruptionCheck layout map fuel x.heap =
      match x.blocks.find? fun b ↦ ¬ x.heap.mem.Intact layout b.addr with
      | none => some (true, [])
      | some b => some (false, x.heap.checks.badBlock layout b.addr)

/-- **The list, the counters and the check** are right in every run, if the pool hands out what is
free, and the users give back what they have and spare the links and the sizes. -/
theorem memListed (h : Reach layout map x) (hmap : map.Whole) (hpos : 0 < map.memHeapBase) :
    x.Listed layout map where
  list := (h.checked hmap hpos).tracks.lists.chain
  apart := (h.checked hmap hpos).tracks.apart
  counts := (h.checked hmap hpos).count
  check _ hfuel := memCorruptionCheck_eq h hmap hpos hfuel

/-- The pool hands out the first bytes of the heap. -/
theorem memListed_oneBlock : ∃ x : DriverSession, x.blocks = [⟨0x40038000, 36⟩] ∧
    x.Listed .inOrder .cymem512k := by
  have hchecks : Reach .inOrder .cymem512k _ :=
    .call (c := .enableChecks true true) (.start fun _ ↦ 0) trivial
  have hinit : Reach .inOrder .cymem512k _ := .call (c := .init) hchecks trivial
  have halloc : Reach .inOrder .cymem512k _ := .call (c := .alloc (some 0x40038000) 10) hinit
    ⟨rfl, fun _ ↦ supplies_of_noOverflow (by rw [NoOverflow]; decide) (by decide) (by decide)
      (by decide) fun c hc ↦ absurd hc List.not_mem_nil⟩
  exact ⟨_, rfl, memListed halloc MemoryMap.whole_cymem512k (by decide)⟩

end DriverSession

end Fx3
end Usb3FpgaCard
