import Usb3FpgaCard.Fx3.BufferChecks

/-!
# Users of the DMA buffer heap: `fx3/cyfxtx.c`

What the users can rely on if all of them give back nothing but what they have, and spare the links
and the sizes in the headers: their blocks are apart and stay whole until they give them back
(`run_apart`), and what is handed out next does not share a cache line with any of them
(`alloc_apart`).

Without that, nobody can: `CyU3PDmaBufferFree` takes any pointer into the heap, and ends the block
it points into.
-/

set_option autoImplicit false

namespace Usb3FpgaCard
namespace Fx3

open Allocation

namespace Session

variable (layout : Layout) (map : MemoryMap)

/-! ## Fair users -/

/-- What the users may do, whether or not there are checks. -/
def Fair (x : Session) : BufferCall → Prop
  | .free _ buffer => ∃ b ∈ x.live, buffer = x.ptr layout map b
  | .write a _ => ∀ b ∈ x.tracked layout map, ¬ b.Link layout a
  | _ => True

/-- The sessions with users who only do that. -/
inductive FairRun : Session → Prop
  | start (mem : Memory) : FairRun (start mem)
  | call {x x' : Session} {c : BufferCall} (h : FairRun x) (hc : x.Fair layout map c)
      (hx : x.call layout map c = some x') : FairRun x'

/-- The heap is shared out among its users. -/
structure SharedOut (x : Session) : Prop where
  /-- A block is at least two cache lines of the heap, and the first of the heap is not in it. -/
  inside : ∀ b ∈ x.live, map.bufferHeapBase < addr map b.start ∧
    addr map b.start + 64 ≤ addr map b.stop ∧ addr map b.stop ≤ map.sysMemTop
  /-- No line belongs to two of them. -/
  apart : x.live.Pairwise fun b c ↦
    addr map b.stop ≤ addr map c.start ∨ addr map c.stop ≤ addr map b.start
  /-- Any call comes to an end, and touches no status word that does not exist. -/
  total : ∀ c, ∃ x', x.call layout map c = some x'
  /-- A block that is given back is taken from its user as a whole, and nothing from another. -/
  back : ∀ b ∈ x.live, ∀ x', x.call layout map (.free true (x.ptr layout map b)) = some x' →
    x'.live = x.live.filter (· ≠ b)

/-- The block `b` is handed out by the pointer `p` for `size` bytes. -/
structure HandedOut (x : Session) (size : BitVec 16) (p : ℕ) (b : Block) : Prop where
  /-- The pointer is behind the header, if there is one, -/
  ptr : p = addr map b.start + x.heap.header layout
  /-- and there is room for the bytes behind it; -/
  bytes : p + size.toNat ≤ addr map b.stop
  /-- the footer is in the block, too. -/
  room : addr map b.start + (blkSize layout x.heap.checks.enableChecks size).toNat ≤
    addr map b.stop
  /-- The block is a number of cache lines -/
  lines : addr map b.start % 32 = 0 ∧ addr map b.stop % 32 = 0
  /-- of the heap, -/
  inside : map.bufferHeapBase < addr map b.start ∧ addr map b.stop ≤ map.sysMemTop
  /-- none of which belongs to another. -/
  apart : ∀ c ∈ x.live, addr map b.stop ≤ addr map c.start ∨ addr map c.stop ≤ addr map b.start

variable {layout map} {x x' : Session} {c : BufferCall}

theorem Fair.legal (h : x.Fair layout map c) : x.Legal layout map c := by
  cases c with
  | free lock buffer => exact fun _ ↦ h
  | write a v => exact h
  | _ => trivial

theorem FairRun.reach (h : FairRun layout map x) : Reach layout map x := by
  induction h with
  | start mem => exact .start mem
  | call _ hc hx ih => exact .call ih hc.legal hx

theorem FairRun.sound (h : FairRun layout map x) (hmap : map.Whole) : x.Sound map :=
  (h.reach.checked hmap).sound

/-! ## Blocks -/

/-- A block in use is inside the heap. -/
theorem inside_of_holds (h : Holds map x.heap.bufferManager x.live) {b : Block} (hb : b ∈ x.live) :
    map.bufferHeapBase < addr map b.start ∧ addr map b.start + 64 ≤ addr map b.stop ∧
      addr map b.stop ≤ map.sysMemTop := by
  have hpos := h.start_pos b hb
  have htwo := h.marks.two_le b hb
  have hstop := h.marks.stop_le b hb
  have hsize := h.statusSize
  unfold addr Block.stop MemoryMap.bufferHeapSize at *
  omega

theorem apart_addr {b c : Block} (h : b.Apart c) :
    addr map b.stop ≤ addr map c.start ∨ addr map c.stop ≤ addr map b.start := by
  unfold Block.Apart at h
  unfold addr
  omega

/-- A block that is given back is the only one that is taken. -/
theorem live_free_ptr (h : Holds map x.heap.bufferManager x.live) (hmap : map.Whole) {b : Block}
    (hb : b ∈ x.live) (hx : x.call layout map (.free true (x.ptr layout map b)) = some x') :
    x'.live = x.live.filter (· ≠ b) := by
  obtain ⟨m', -, -, heq⟩ := holds_free_ptr layout h hmap hb
  rw [call, heq] at hx
  obtain rfl := Option.some.inj hx
  dsimp only
  rw [if_pos rfl, ptr, Nat.add_sub_cancel, line_start, h.marks.cut_eq_erase hb]

/-- **The users' blocks are apart and stay whole**, whoever asks for what and gives back what he has
in whatever order. -/
theorem run_apart (h : FairRun layout map x) (hmap : map.Whole) : x.SharedOut layout map := by
  have hs := h.sound hmap
  have hholds : ∀ b ∈ x.live, Holds map x.heap.bufferManager x.live := fun b hb ↦
    hs.resolve_left fun hidle ↦ absurd (hidle.live ▸ hb) List.not_mem_nil
  refine ⟨fun b hb ↦ inside_of_holds (hholds b hb) hb, ?_, fun c ↦ ?_, fun b hb x' hx ↦ ?_⟩
  · rcases hs with hidle | hh
    · rw [hidle.live]
      exact .nil
    · exact hh.marks.apart.imp apart_addr
  · obtain ⟨x', hx', -⟩ := hs.call layout hmap c
    exact ⟨x', hx'⟩
  · exact live_free_ptr (hholds b hb) hmap hb hx

/-- Two blocks, one of which is given back, and a third that does not fit there. -/
theorem run_apart_threeBlocks : ∃ x : Session, x.live = [⟨35, 3⟩, ⟨3, 32⟩] ∧
    x.SharedOut .inOrder .cymem512k := by
  have hinit : FairRun .inOrder .cymem512k _ :=
    .call (c := .init true true) (.start fun _ ↦ 0) trivial rfl
  have hfirst : FairRun .inOrder .cymem512k _ := .call (c := .alloc true 64) hinit trivial rfl
  have hsecond : FairRun .inOrder .cymem512k _ := .call (c := .alloc true 1000) hfirst trivial rfl
  have hback : FairRun .inOrder .cymem512k _ :=
    .call (c := .free true 0x40040020) hsecond ⟨⟨1, 2⟩, by decide, rfl⟩ rfl
  have hthird : FairRun .inOrder .cymem512k _ := .call (c := .alloc true 96) hback trivial rfl
  exact ⟨_, rfl, run_apart hthird MemoryMap.whole_cymem512k⟩

/-- **What is handed out is inside the heap**, with its header and its footer, and no cache line of
it belongs to another user. -/
theorem alloc_apart (h : FairRun layout map x) (hmap : map.Whole) (size : BitVec 16) :
    ∃ heap p, dmaBufferAlloc layout true size x.heap = some (heap, p) ∧
      (p = 0 ∨ ∃ b, x.call layout map (.alloc true size) = some ⟨heap, b :: x.live⟩ ∧
        x.HandedOut layout map size p b) := by
  obtain ⟨heap, p, heq, hp⟩ := (h.sound hmap).alloc layout hmap size
  refine ⟨heap, p, heq, hp.imp_right ?_⟩
  rintro ⟨b, hlen, -, hh, -, rfl⟩
  have hbase := hmap.base_pos
  have hmod := hmap.base_mod
  have hstart : map.line (addr map b.start) = b.start := line_start b
  have hcall : x.call layout map (.alloc true size) = some ⟨heap, b :: x.live⟩ := by
    rw [call, heq]
    dsimp only [Option.map_some]
    rw [if_neg (by unfold addr; omega), Nat.add_sub_cancel, hstart, ← hlen]
  obtain ⟨hlt, -, hle⟩ := inside_of_holds (x := ⟨heap, b :: x.live⟩) hh List.mem_cons_self
  have hroom : addr map b.start + (blkSize layout x.heap.checks.enableChecks size).toNat ≤
      addr map b.stop := by
    have hlines := (blkLines_bounds layout x.heap.checks.enableChecks size).2.2
    rw [BufferHeap.lines] at hlen
    rw [← hlen] at hlines
    unfold addr Block.stop
    omega
  refine ⟨b, hcall, rfl, ?_, hroom, ?_, ⟨hlt, hle⟩, fun c hc ↦ ?_⟩
  · rw [toNat_blkSize] at hroom
    rw [BufferHeap.header]
    by_cases hc : x.heap.checks.enableChecks = true
    · rw [if_pos hc] at hroom ⊢
      omega
    · rw [if_neg hc] at hroom ⊢
      omega
  · unfold addr
    omega
  · exact apart_addr ((List.pairwise_cons.mp hh.marks.apart).1 c hc)

/-- With checks, 108 bytes take five lines, since the footer is in the fifth. -/
theorem alloc_apart_oneBlock : ∃ (x : Session) (heap : BufferHeap) (p : ℕ), x.live = [⟨1, 4⟩] ∧
    dmaBufferAlloc .inOrder true 108 x.heap = some (heap, p) ∧
      (p = 0 ∨ ∃ b, x.call .inOrder .cymem512k (.alloc true 108) = some ⟨heap, b :: x.live⟩ ∧
        x.HandedOut .inOrder .cymem512k 108 p b) := by
  have hchecks : FairRun .inOrder .cymem512k _ :=
    .call (c := .enableChecks true true) (.start fun _ ↦ 0) trivial rfl
  have hinit : FairRun .inOrder .cymem512k _ := .call (c := .init true true) hchecks trivial rfl
  have halloc : FairRun .inOrder .cymem512k _ := .call (c := .alloc true 100) hinit trivial rfl
  obtain ⟨heap, p, hp⟩ := alloc_apart halloc MemoryMap.whole_cymem512k 108
  exact ⟨_, heap, p, rfl, hp⟩

end Session

end Fx3
end Usb3FpgaCard
