import Mathlib.Data.List.Induction
import Usb3FpgaCard.Fx3.Buffers

/-!
# Runs of the DMA buffer heap: `fx3/cyfxtx.c`

The functions of the buffer heap called in any order, with any arguments and any outcome of the SDK
functions they rely on.  A `Session` records with the heap which blocks its users have: what
`CyU3PDmaBufferAlloc` returned to them, less what `CyU3PDmaBufferFree` took back.  That may be less
than a user thinks: a pointer into a block takes the end of the block from its owner, from the line
after the one it points to on, and these lines are handed out again.  Nobody loses anything so if
all give back what they have (`Fx3.BufferUsers`).

In every run the status bits stand for these blocks (`run_holds`), and no status word is touched
that does not exist.  An allocation fails only for want of room, but the room is looked for in two
stretches, and a place that lies across their border is not found (`alloc_eq_zero_iff`).

The manager is not in the memory that the headers are in, so that what the checks write there does
not reach it.  With pointers that were never handed out, or headers that have been overwritten, this
is not so on the chip.
-/

set_option autoImplicit false

namespace Usb3FpgaCard
namespace Fx3

open Allocation

/-- A call of one of the functions of the buffer heap. -/
inductive BufferCall where
  /-- `CyU3PBufEnableChecks`. -/
  | enableChecks (enable badCb : Bool)
  /-- `CyU3PDmaBufferInit`, and whether the mutex can be created and the memory be had. -/
  | init (mutexCreate memAlloc : Bool)
  /-- `CyU3PDmaBufferDeInit`, and whether it gets the lock. -/
  | deInit (lock : Bool)
  /-- `CyU3PDmaBufferAlloc`, and whether it gets the lock. -/
  | alloc (lock : Bool) (size : BitVec 16)
  /-- `CyU3PDmaBufferFree`, and whether it gets the lock. -/
  | free (lock : Bool) (buffer : ℕ)
  /-- Somebody writes to the memory. -/
  | write (a : ℕ) (v : BitVec 32)

/-- The heap and the blocks its users have. -/
structure Session where
  heap : BufferHeap
  /-- The blocks as far as the heap takes them to be in use: a free by a pointer into a block has
  cut off its end. -/
  live : List Block

/-- What the pointer that is handed out leaves out: the header, if there are checks. -/
def BufferHeap.header (layout : Layout) (s : BufferHeap) : ℕ :=
  if s.checks.enableChecks then layout.size else 0

namespace Session

variable (layout : Layout) (map : MemoryMap)

/-- A call, and what its users have afterwards. -/
def call (x : Session) : BufferCall → Option Session
  | .enableChecks enable badCb => some { x with heap := (bufEnableChecks enable badCb x.heap).1 }
  | .init mutexCreate memAlloc =>
    some { x with
      heap := { x.heap with
        bufferManager := dmaBufferInit map mutexCreate memAlloc x.heap.bufferManager } }
  | .deInit lock =>
    some { heap := dmaBufferDeInit lock x.heap, live := if lock then [] else x.live }
  | .alloc lock size =>
    (dmaBufferAlloc layout lock size x.heap).map fun (heap, ptr) ↦
      { heap := heap
        live :=
          if ptr = 0 then x.live
          else ⟨map.line (ptr - x.heap.header layout), x.heap.lines layout size⟩ :: x.live }
  | .free lock buffer =>
    (dmaBufferFree layout map lock buffer x.heap).map fun (heap, retVal, _) ↦
      { heap := heap
        live :=
          if retVal = 0 then x.live.filterMap (Block.cut (map.line (buffer - x.heap.header layout)))
          else x.live }
  | .write a v => some { x with heap := { x.heap with mem := Function.update x.heap.mem a v } }

/-- Before the first call. -/
def start (mem : Memory) : Session where
  heap := ⟨DmaBufMgr.zero, ⟨false, 0, 0, 0, false⟩, mem⟩
  live := []

/-- A run. -/
def run (mem : Memory) (calls : List BufferCall) : Option Session :=
  calls.foldlM (call layout map) (start mem)

/-- The heap is not initialized. -/
structure Idle (x : Session) : Prop where
  startAddr : x.heap.bufferManager.startAddr = 0
  regionSize : x.heap.bufferManager.regionSize = 0
  usedStatus : x.heap.bufferManager.usedStatus = none
  live : x.live = []

/-- The heap is not initialized, or its status bits stand for the blocks its users have. -/
def Sound (x : Session) : Prop := x.Idle ∨ Holds map x.heap.bufferManager x.live

variable {layout map} {x : Session}

theorem untrack_eq (s : BufferHeap) (buffer : ℕ) :
    (s.untrack layout buffer).2.1 = buffer - s.header layout := by
  unfold BufferHeap.untrack BufferHeap.header
  split <;> rfl

/-! ## Single calls -/

/-- Before the heap is initialized nothing is handed out and nothing taken back. -/
theorem Idle.call (h : x.Idle) (hmap : map.Whole) (c : BufferCall) :
    ∃ x', x.call layout map c = some x' ∧ x'.Sound map := by
  cases c with
  | enableChecks enable badCb =>
    refine ⟨_, rfl, Or.inl ⟨?_, ?_, ?_, h.live⟩⟩ <;>
      simp only [bufEnableChecks, h.usedStatus, ↓reduceIte, h.startAddr, h.regionSize]
  | init mutexCreate memAlloc =>
    refine ⟨_, rfl, ?_⟩
    cases mutexCreate with
    | false =>
      refine Or.inl ⟨?_, ?_, ?_, h.live⟩ <;>
        simp [dmaBufferInit, h.startAddr, h.regionSize, h.usedStatus]
    | true =>
      cases memAlloc with
      | false =>
        refine Or.inl ⟨?_, ?_, ?_, h.live⟩ <;> simp [dmaBufferInit, h.startAddr, h.regionSize]
      | true =>
        right
        dsimp only
        rw [h.live]
        exact holds_dmaBufferInit hmap h.startAddr
  | deInit lock =>
    refine ⟨_, rfl, Or.inl ?_⟩
    cases lock with
    | false => exact ⟨h.startAddr, h.regionSize, h.usedStatus, h.live⟩
    | true => exact ⟨rfl, rfl, rfl, rfl⟩
  | alloc lock size =>
    have halloc : dmaBufferAlloc layout lock size x.heap = some (x.heap, 0) := by
      cases lock <;> simp [dmaBufferAlloc, h.startAddr]
    refine ⟨x, ?_, Or.inl h⟩
    rw [Session.call, halloc]
    rfl
  | free lock buffer =>
    have hfree : ∃ heap bad, dmaBufferFree layout map lock buffer x.heap = some (heap, -1, bad) ∧
        heap.bufferManager = x.heap.bufferManager := by
      unfold dmaBufferFree
      by_cases hlt : buffer < map.bufferHeapBase
      · exact ⟨x.heap, [], by rw [if_pos hlt]; rfl, rfl⟩
      · cases lock with
        | false => exact ⟨x.heap, [], by rw [if_neg hlt]; rfl, rfl⟩
        | true =>
          refine ⟨(x.heap.untrack layout buffer).1, (x.heap.untrack layout buffer).2.2, ?_,
            untrack_bufferManager buffer⟩
          rw [if_neg hlt]
          simp only [not_true_eq_false, ↓reduceIte, untrack_bufferManager, h.startAddr,
            h.regionSize]
          rw [if_pos (by omega)]
          rfl
    obtain ⟨heap, bad, heq, hm⟩ := hfree
    refine ⟨⟨heap, x.live⟩, ?_, Or.inl ⟨?_, ?_, ?_, h.live⟩⟩
    · rw [Session.call, heq]
      rfl
    · exact hm ▸ h.startAddr
    · exact hm ▸ h.regionSize
    · exact hm ▸ h.usedStatus
  | write a v => exact ⟨_, rfl, Or.inl ⟨h.startAddr, h.regionSize, h.usedStatus, h.live⟩⟩

theorem holds_call_alloc (h : Holds map x.heap.bufferManager x.live) (hmap : map.Whole)
    (size : BitVec 16) :
    ∃ x', x.call layout map (.alloc true size) = some x' ∧
      Holds map x'.heap.bufferManager x'.live := by
  cases hz : x.heap.place layout size with
  | none =>
    refine ⟨x, ?_, h⟩
    rw [Session.call, h.alloc_none layout hmap hz]
    rfl
  | some z =>
    obtain ⟨m', hm', heq⟩ := h.alloc_some layout hmap hz
    have hbase := hmap.base_pos
    have hline : ∀ n, map.line (map.bufferHeapBase + (z + 1) * 32 + n - n) = z + 1 := fun n ↦ by
      unfold MemoryMap.line
      omega
    have hline' : map.line (map.bufferHeapBase + (z + 1) * 32) = z + 1 := hline 0
    rw [Session.call, heq]
    cases hc : x.heap.checks.enableChecks with
    | false =>
      refine ⟨_, rfl, ?_⟩
      dsimp only [BufferHeap.header]
      rw [hc, if_neg (by omega)]
      simpa only [Bool.false_eq_true, ↓reduceIte, Nat.sub_zero, hline'] using hm'
    | true =>
      refine ⟨_, rfl, ?_⟩
      dsimp only [BufferHeap.header]
      rw [hc, if_neg (by omega)]
      simpa only [↓reduceIte, hline] using hm'

theorem holds_call_free (h : Holds map x.heap.bufferManager x.live) (hmap : map.Whole)
    (lock : Bool) (buffer : ℕ) :
    ∃ x', x.call layout map (.free lock buffer) = some x' ∧
      Holds map x'.heap.bufferManager x'.live := by
  have hrefused : ∀ heap bad, dmaBufferFree layout map lock buffer x.heap = some (heap, -1, bad) →
      heap.bufferManager = x.heap.bufferManager →
      ∃ x', x.call layout map (.free lock buffer) = some x' ∧
        Holds map x'.heap.bufferManager x'.live := fun heap bad heq hm ↦ by
    refine ⟨⟨heap, x.live⟩, ?_, hm ▸ h⟩
    rw [Session.call, heq]
    rfl
  by_cases hlt : buffer < map.bufferHeapBase
  · exact hrefused x.heap [] (by rw [dmaBufferFree, if_pos hlt]; rfl) rfl
  · cases lock with
    | false => exact hrefused x.heap [] (by rw [dmaBufferFree, if_neg hlt]; rfl) rfl
    | true =>
      by_cases hp : map.bufferHeapBase < (x.heap.untrack layout buffer).2.1 ∧
          (x.heap.untrack layout buffer).2.1 < map.sysMemTop
      · obtain ⟨m', hm', -, heq⟩ := h.free layout hmap (Nat.not_lt.mp hlt) hp
        rw [untrack_eq] at hm'
        refine ⟨⟨{ (x.heap.untrack layout buffer).1 with bufferManager := m' }, _⟩, ?_, hm'⟩
        rw [Session.call, heq]
        rfl
      · exact hrefused _ _ (h.free_of_not_mem layout hmap (Nat.not_lt.mp hlt) hp)
          (untrack_bufferManager buffer)

theorem sound_call (h : Holds map x.heap.bufferManager x.live) (hmap : map.Whole)
    (c : BufferCall) : ∃ x', x.call layout map c = some x' ∧ x'.Sound map := by
  cases c with
  | enableChecks enable badCb =>
    obtain ⟨usedStatus, hu, -⟩ := h.usedStatus
    refine ⟨x, ?_, Or.inr h⟩
    simp [Session.call, bufEnableChecks, hu]
  | init mutexCreate memAlloc =>
    have hne := h.not_zero hmap
    refine ⟨x, ?_, Or.inr h⟩
    rw [Session.call, dmaBufferInit, if_pos (by omega)]
  | deInit lock =>
    refine ⟨_, rfl, ?_⟩
    cases lock with
    | false => exact Or.inr h
    | true => exact Or.inl ⟨rfl, rfl, rfl, rfl⟩
  | alloc lock size =>
    cases lock with
    | false => exact ⟨x, rfl, Or.inr h⟩
    | true =>
      obtain ⟨x', hx', hh⟩ := holds_call_alloc h hmap size
      exact ⟨x', hx', Or.inr hh⟩
  | free lock buffer =>
    obtain ⟨x', hx', hh⟩ := holds_call_free h hmap lock buffer
    exact ⟨x', hx', Or.inr hh⟩
  | write a v => exact ⟨_, rfl, Or.inr h⟩

theorem Sound.call (layout : Layout) (h : x.Sound map) (hmap : map.Whole) (c : BufferCall) :
    ∃ x', x.call layout map c = some x' ∧ x'.Sound map := by
  rcases h with h | h
  · exact h.call hmap c
  · exact sound_call h hmap c

/-- **Whatever is called, the status bits stand for the blocks the users have.** -/
theorem run_holds (layout : Layout) (hmap : map.Whole) (mem : Memory) (calls : List BufferCall) :
    ∃ x, run layout map mem calls = some x ∧ x.Sound map := by
  induction calls using List.reverseRecOn with
  | nil => exact ⟨start mem, rfl, Or.inl ⟨rfl, rfl, rfl, rfl⟩⟩
  | append_singleton calls c ih =>
    obtain ⟨x, hx, hs⟩ := ih
    obtain ⟨x', hx', hs'⟩ := hs.call layout hmap c
    refine ⟨x', ?_, hs'⟩
    unfold run at *
    rw [List.foldlM_append, hx]
    simp [hx']

/-- The address of a line. -/
def addr (map : MemoryMap) (line : ℕ) : ℕ := map.bufferHeapBase + 32 * line

/-! ## Room -/

/-- The `n` lines from `z` on are among those from `lo` to before `hi`, and no block marks them:
they are free, but the first may be the last of a block. -/
structure Gap (live : List Block) (n lo hi z : ℕ) : Prop where
  le : lo ≤ z
  stop_le : z + n ≤ hi
  free : ∀ b ∈ live, ∀ i, z ≤ i → i < z + n → ¬ b.Covers i

theorem fits_iff_gap {n lo hi z : ℕ} (h : Holds map x.heap.bufferManager x.live) :
    Fits x.heap.bufferManager.bits n lo hi z ↔ Gap x.live n lo hi z := by
  have hfree : Free x.heap.bufferManager.bits z n ↔
      ∀ b ∈ x.live, ∀ i, z ≤ i → i < z + n → ¬ b.Covers i := by
    constructor
    · intro hf b hb i hi hlt hcov
      have hm := (h.marks.marked_iff i).mpr ⟨b, hb, hcov⟩
      rw [hf i hi hlt] at hm
      exact absurd hm (by simp)
    · intro hf i hi hlt
      by_contra hm
      obtain ⟨b, hb, hcov⟩ := (h.marks.marked_iff i).mp (by simpa using hm)
      exact hf b hb i hi hlt hcov
  exact ⟨fun h ↦ ⟨h.le, h.stop_le, hfree.mp h.free⟩, fun h ↦ ⟨h.le, h.stop_le, hfree.mpr h.free⟩⟩

theorem sound_of_run {mem : Memory} {calls : List BufferCall} (hmap : map.Whole)
    (hrun : run layout map mem calls = some x) : x.Sound map := by
  obtain ⟨x', hx', hs⟩ := run_holds layout hmap mem calls
  rw [hrun] at hx'
  exact Option.some.inj hx' ▸ hs

/-- A block of 100 bytes with its header: it has the four lines behind the first. -/
def oneBlock : List BufferCall := [.enableChecks true true, .init true true, .alloc true 100]

theorem run_oneBlock : ∃ x, run .inOrder .cymem512k (fun _ ↦ 0) oneBlock = some x ∧ ¬ x.Idle ∧
    x.live = [⟨1, 4⟩] := by
  refine ⟨_, rfl, fun h ↦ absurd h.startAddr ?_, rfl⟩
  decide

/-- What an allocation does: nothing, or a new block is in use. -/
theorem Sound.alloc (layout : Layout) (h : x.Sound map) (hmap : map.Whole) (size : BitVec 16) :
    ∃ heap p, dmaBufferAlloc layout true size x.heap = some (heap, p) ∧
      (p = 0 ∨ ∃ b, b.len = x.heap.lines layout size ∧ Holds map x.heap.bufferManager x.live ∧
        Holds map heap.bufferManager (b :: x.live) ∧ heap.header layout = x.heap.header layout ∧
        p = addr map b.start + x.heap.header layout) := by
  rcases h with h | h
  · exact ⟨x.heap, 0, by simp [dmaBufferAlloc, h.startAddr], .inl rfl⟩
  cases hz : x.heap.place layout size with
  | none => exact ⟨x.heap, 0, h.alloc_none layout hmap hz, .inl rfl⟩
  | some z =>
    obtain ⟨m', hm', heq⟩ := h.alloc_some layout hmap hz
    unfold BufferHeap.header addr
    rw [heq, Nat.mul_comm (z + 1)]
    cases hc : x.heap.checks.enableChecks with
    | false =>
      exact ⟨_, _, rfl, .inr ⟨⟨z + 1, x.heap.lines layout size⟩, rfl, h, hm', by simp [hc], rfl⟩⟩
    | true =>
      exact ⟨_, _, rfl, .inr ⟨⟨z + 1, x.heap.lines layout size⟩, rfl, h, hm',
        by simp [Tracking.store, hc], rfl⟩⟩

/-- **An allocation fails exactly if there is no room behind the word where the search starts, nor
before it.**  One line more is needed than the block has. -/
theorem alloc_eq_zero_iff {mem : Memory} {calls : List BufferCall} (hmap : map.Whole)
    (hrun : run layout map mem calls = some x) (hx : ¬ x.Idle) (size : BitVec 16) :
    ∃ heap ptr, dmaBufferAlloc layout true size x.heap = some (heap, ptr) ∧
      (ptr = 0 ↔ ∀ z,
        ¬ Gap x.live (x.heap.lines layout size + 1) (32 * x.heap.bufferManager.searchPos)
          (32 * x.heap.bufferManager.statusSize) z ∧
        ¬ Gap x.live (x.heap.lines layout size + 1) 0 (32 * x.heap.bufferManager.searchPos) z) := by
  have h := (sound_of_run hmap hrun).resolve_left hx
  have hiff := firstFree_eq_none_iff x.heap.bufferManager.bits
    (Nat.succ_pos (x.heap.lines layout size)) (Nat.le_of_lt h.searchPos_lt)
  simp only [fits_iff_gap h] at hiff
  rw [← hiff]
  cases hz : x.heap.place layout size with
  | none => exact ⟨x.heap, 0, h.alloc_none layout hmap hz, iff_of_true rfl hz⟩
  | some z =>
    obtain ⟨m', -, heq⟩ := h.alloc_some layout hmap hz
    have hbase := hmap.base_pos
    have hnone : ¬ x.heap.place layout size = none := by simp [hz]
    rw [heq]
    cases x.heap.checks.enableChecks
    · exact ⟨_, _, rfl, iff_of_false (by omega) hnone⟩
    · exact ⟨_, _, rfl, iff_of_false (by omega) hnone⟩

/-- Whether there is room for 5000 bytes behind the block. -/
theorem alloc_eq_zero_iff_oneBlock : ∃ (x : Session) (heap : BufferHeap) (ptr : ℕ),
    x.live = [⟨1, 4⟩] ∧ dmaBufferAlloc .inOrder true 5000 x.heap = some (heap, ptr) ∧
      (ptr = 0 ↔ ∀ z,
        ¬ Gap x.live (x.heap.lines .inOrder 5000 + 1) (32 * x.heap.bufferManager.searchPos)
          (32 * x.heap.bufferManager.statusSize) z ∧
        ¬ Gap x.live (x.heap.lines .inOrder 5000 + 1) 0
          (32 * x.heap.bufferManager.searchPos) z) := by
  obtain ⟨x, hrun, hidle, hlive⟩ := run_oneBlock
  obtain ⟨heap, ptr, h⟩ := alloc_eq_zero_iff MemoryMap.whole_cymem512k hrun hidle 5000
  exact ⟨x, heap, ptr, hlive, h⟩

/-! ## Giving blocks back -/

/-- The pointer to a block, as it is handed out. -/
def ptr (layout : Layout) (x : Session) (map : MemoryMap) (b : Block) : ℕ :=
  map.bufferHeapBase + 32 * b.start + x.heap.header layout

theorem untrack_ptr (b : Block) :
    (x.heap.untrack layout (x.ptr layout map b)).2.1 = map.bufferHeapBase + 32 * b.start := by
  rw [untrack_eq, ptr, Nat.add_sub_cancel]

theorem line_start (b : Block) : map.line (map.bufferHeapBase + 32 * b.start) = b.start := by
  unfold MemoryMap.line
  omega

/-- A pointer that has been handed out is accepted. -/
theorem ptr_mem (h : Holds map x.heap.bufferManager x.live) {b : Block} (hb : b ∈ x.live) :
    map.bufferHeapBase ≤ x.ptr layout map b ∧
      map.bufferHeapBase < map.bufferHeapBase + 32 * b.start ∧
      map.bufferHeapBase + 32 * b.start < map.sysMemTop := by
  have hpos := h.start_pos b hb
  have hstop := h.marks.stop_le b hb
  have htwo := h.marks.two_le b hb
  have hsize := h.statusSize
  unfold ptr Block.stop MemoryMap.bufferHeapSize at *
  omega

theorem holds_free_ptr (layout : Layout) (h : Holds map x.heap.bufferManager x.live)
    (hmap : map.Whole) {b : Block} (hb : b ∈ x.live) :
    ∃ m', Holds map m' (x.live.filter (· ≠ b)) ∧ m'.searchPos = 0 ∧
      dmaBufferFree layout map true (x.ptr layout map b) x.heap =
        some ({ (x.heap.untrack layout (x.ptr layout map b)).1 with bufferManager := m' }, 0,
          (x.heap.untrack layout (x.ptr layout map b)).2.2) := by
  obtain ⟨hge, hlt⟩ := ptr_mem h hb
  obtain ⟨m', hm', hzero, heq⟩ := h.free layout hmap hge (by rwa [untrack_ptr])
  rw [untrack_ptr, line_start, h.marks.cut_eq_erase hb] at hm'
  exact ⟨m', hm', hzero, heq⟩

/-- **What a user gives back is taken from him, and nothing from another.** -/
theorem free_live {mem : Memory} {calls : List BufferCall} (hmap : map.Whole)
    (hrun : run layout map mem calls = some x) {b : Block} (hb : b ∈ x.live) :
    ∃ heap bad, dmaBufferFree layout map true (x.ptr layout map b) x.heap = some (heap, 0, bad) ∧
      Holds map heap.bufferManager (x.live.filter (· ≠ b)) ∧
      heap.bufferManager.searchPos = 0 := by
  rcases sound_of_run hmap hrun with h | h
  · exact absurd (h.live ▸ hb) List.not_mem_nil
  · obtain ⟨m', hm', hzero, heq⟩ := holds_free_ptr layout h hmap hb
    exact ⟨_, _, heq, hm', hzero⟩

/-- The only block is given back. -/
theorem free_live_oneBlock : ∃ (x : Session) (heap : BufferHeap) (bad : List ℕ),
    x.live = [⟨1, 4⟩] ∧
    dmaBufferFree .inOrder .cymem512k true (x.ptr .inOrder .cymem512k ⟨1, 4⟩) x.heap =
        some (heap, 0, bad) ∧
      Holds .cymem512k heap.bufferManager (x.live.filter (· ≠ ⟨1, 4⟩)) ∧
      heap.bufferManager.searchPos = 0 := by
  obtain ⟨x, hrun, -, hlive⟩ := run_oneBlock
  obtain ⟨heap, bad, h⟩ := free_live MemoryMap.whole_cymem512k hrun (b := ⟨1, 4⟩) (by simp [hlive])
  exact ⟨x, heap, bad, hlive, h⟩

/-- **A block that is given back at once leaves no trace**, except that the next search starts at
the top. -/
theorem free_alloc {mem : Memory} {calls : List BufferCall} (hmap : map.Whole)
    (hrun : run layout map mem calls = some x) (size : BitVec 16) :
    ∃ heap p, dmaBufferAlloc layout true size x.heap = some (heap, p) ∧
      (p = 0 ∨ ∃ heap' bad, dmaBufferFree layout map true p heap = some (heap', 0, bad) ∧
        heap'.bufferManager = { x.heap.bufferManager with searchPos := 0 }) := by
  obtain ⟨heap, p, heq, hp⟩ := (sound_of_run hmap hrun).alloc layout hmap size
  refine ⟨heap, p, heq, hp.imp_right ?_⟩
  rintro ⟨b, -, h, hh, hheader, rfl⟩
  obtain ⟨m'', hholds, hzero, hfree⟩ := holds_free_ptr (x := ⟨heap, b :: x.live⟩) layout hh hmap
    List.mem_cons_self
  have hptr : ptr layout ⟨heap, b :: x.live⟩ map b = addr map b.start + x.heap.header layout :=
    congrArg _ hheader
  rw [hptr] at hfree
  refine ⟨_, _, hfree, hholds.ext h.searchPos_zero (fun c ↦ ?_) hzero⟩
  have hne : ∀ c ∈ x.live, c ≠ b := fun c hc he ↦ by
    have hap := (List.pairwise_cons.mp hh.marks.apart).1 c hc
    have := h.marks.two_le c hc
    unfold Block.Apart Block.stop at hap
    subst he
    omega
  simp only [List.mem_filter, List.mem_cons, ne_eq, decide_eq_true_eq]
  constructor
  · rintro ⟨rfl | hc, hcb⟩
    · exact absurd rfl hcb
    · exact hc
  · exact fun hc ↦ ⟨.inr hc, hne c hc⟩

/-- A second block comes and goes. -/
theorem free_alloc_oneBlock : ∃ (x : Session) (heap : BufferHeap) (p : ℕ), x.live = [⟨1, 4⟩] ∧
    dmaBufferAlloc .inOrder true 5000 x.heap = some (heap, p) ∧
      (p = 0 ∨ ∃ heap' bad, dmaBufferFree .inOrder .cymem512k true p heap = some (heap', 0, bad) ∧
        heap'.bufferManager = { x.heap.bufferManager with searchPos := 0 }) := by
  obtain ⟨x, hrun, -, hlive⟩ := run_oneBlock
  obtain ⟨heap, p, h⟩ := free_alloc MemoryMap.whole_cymem512k hrun 5000
  exact ⟨x, heap, p, hlive, h⟩

/-- **When everything has been given back the heap is as it was when it was initialized.** -/
theorem bufferManager_of_live_nil {mem : Memory} {calls : List BufferCall} (hmap : map.Whole)
    (hrun : run layout map mem calls = some x) (hx : ¬ x.Idle) (hlive : x.live = []) :
    x.heap.bufferManager = dmaBufferInit map true true DmaBufMgr.zero := by
  have h := (sound_of_run hmap hrun).resolve_left hx
  rw [hlive] at h
  have hinit := holds_dmaBufferInit hmap (show DmaBufMgr.zero.startAddr = 0 from rfl)
  exact h.ext hinit (fun _ ↦ Iff.rfl) ((h.searchPos_nil rfl).trans (hinit.searchPos_nil rfl).symm)

/-- The only block comes and goes. -/
theorem bufferManager_of_live_nil_oneBlock : ∃ x : Session,
    run .inOrder .cymem512k (fun _ ↦ 0)
      [.init true true, .alloc true 64, .free true 0x40040020] = some x ∧
    x.heap.bufferManager = dmaBufferInit .cymem512k true true DmaBufMgr.zero := by
  have hrun : run .inOrder .cymem512k (fun _ ↦ 0)
    [.init true true, .alloc true 64, .free true 0x40040020] = some _ := rfl
  refine ⟨_, hrun, bufferManager_of_live_nil MemoryMap.whole_cymem512k hrun (fun h ↦ ?_) rfl⟩
  exact absurd h.startAddr (by decide)

end Session

end Fx3
end Usb3FpgaCard
