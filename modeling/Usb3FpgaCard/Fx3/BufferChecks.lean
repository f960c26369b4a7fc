import Usb3FpgaCard.Fx3.BufferCalls

/-!
# The checks of the DMA buffer heap: `fx3/cyfxtx.c`

When the checks are enabled, the list of the blocks in use runs through the buffers themselves.  As
long as the users only give back what they have, and do not overwrite the links and the sizes in the
headers, the list has exactly the blocks that are in use (`Reach.checked`).  So
`CyU3PBufCorruptionCheck` comes to an end and finds the newest block with a damaged signature
(`bufCorruptionCheck_eq`), and the heap itself never writes into a block that somebody has
(`call_frame`).
-/

set_option autoImplicit false

namespace Usb3FpgaCard
namespace Fx3

open Allocation

/-- `CyU3PBufGetCounts`. -/
def bufGetCounts (s : BufferHeap) : BitVec 32 × BitVec 32 := (s.checks.allocCnt, s.checks.freeCnt)

/-- `CyU3PBufGetActiveList`. -/
def bufGetActiveList (s : BufferHeap) : ℕ := s.checks.inUseList

/-- `CyU3PBufCorruptionCheck`, for no more than `fuel` blocks. -/
def bufCorruptionCheck (layout : Layout) (map : MemoryMap) (fuel : ℕ) (s : BufferHeap) :
    Option (Bool × List ℕ) :=
  s.checks.corruptionCheck layout s.mem map.bufferHeapBase map.sysMemTop fuel s.checks.inUseList

namespace Session

variable (layout : Layout) (map : MemoryMap)

/-- A block with its header: where it is, and the size in its header. -/
def memBlock (x : Session) (b : Block) : MemBlock where
  addr := map.bufferHeapBase + 32 * b.start
  size := (x.heap.mem.field layout .allocSize (map.bufferHeapBase + 32 * b.start)).toNat

/-- The blocks that are in the list. -/
def tracked (x : Session) : List MemBlock :=
  if x.heap.checks.enableChecks then x.live.map (x.memBlock layout map) else []

/-- What the users may do when the checks are enabled. -/
def Legal (x : Session) : BufferCall → Prop
  | .free _ buffer => x.heap.checks.enableChecks = true → ∃ b ∈ x.live, buffer = x.ptr layout map b
  | .write a _ => ∀ b ∈ x.tracked layout map, ¬ b.Link layout a
  | _ => True

/-- The sessions with users who only do that. -/
inductive Reach : Session → Prop
  | start (mem : Memory) : Reach (start mem)
  | call {x x' : Session} {c : BufferCall} (h : Reach x) (hc : x.Legal layout map c)
      (hx : x.call layout map c = some x') : Reach x'

/-- The list has the blocks the users have, and the counters count them. -/
structure Checked (x : Session) : Prop where
  sound : x.Sound map
  tracks : Tracks layout map.bufferHeapBase map.sysMemTop x.heap.checks x.heap.mem
    (x.tracked layout map)
  room : ∀ b ∈ x.live, x.heap.checks.enableChecks = true →
    (x.memBlock layout map b).size ≤ 32 * b.len
  count : x.heap.checks.allocCnt =
    x.heap.checks.freeCnt + BitVec.ofNat 32 (x.tracked layout map).length

/-- What a call can do to the list. -/
inductive Effect (x x' : Session) : BufferCall → Prop
  /-- Nothing. -/
  | quiet {c : BufferCall} (hchecks : x'.heap.checks = x.heap.checks)
      (hmem : x'.heap.mem = x.heap.mem) (hlive : x'.live = x.live) : Effect x x' c
  /-- Without checks there is no list. -/
  | unchecked {c : BufferCall} (hc : x.heap.checks.enableChecks = false)
      (hchecks : x'.heap.checks = x.heap.checks) (hmem : x'.heap.mem = x.heap.mem) : Effect x x' c
  /-- The checks are enabled or disabled before there are blocks. -/
  | configured {enable badCb : Bool} (hlive : x.live = []) (hlive' : x'.live = [])
      (hchecks : x'.heap.checks =
        { x.heap.checks with enableChecks := enable, badCb := badCb })
      (hmem : x'.heap.mem = x.heap.mem) : Effect x x' (.enableChecks enable badCb)
  /-- The heap is given up. -/
  | cleared (hlive : x'.live = [])
      (hchecks : x'.heap.checks =
        { x.heap.checks with allocCnt := 0, freeCnt := 0, inUseList := 0 })
      (hmem : x'.heap.mem = x.heap.mem) : Effect x x' (.deInit true)
  /-- A block is put in. -/
  | stored {size : BitVec 16} {z : ℕ} (hh : Holds map x.heap.bufferManager x.live)
      (hc : x.heap.checks.enableChecks = true)
      (hz : x.heap.place layout size = some z)
      (hlive : x'.live = ⟨z + 1, x.heap.lines layout size⟩ :: x.live)
      (hchecks : x'.heap.checks = (x.heap.checks.store layout x.heap.mem
        (map.bufferHeapBase + (z + 1) * 32) (blkSize layout true size).toNat).1)
      (hmem : x'.heap.mem = (x.heap.checks.store layout x.heap.mem
        (map.bufferHeapBase + (z + 1) * 32) (blkSize layout true size).toNat).2) :
      Effect x x' (.alloc true size)
  /-- A block is taken out. -/
  | dropped {b : Block} (hc : x.heap.checks.enableChecks = true) (hb : b ∈ x.live)
      (hlive : x'.live = x.live.filter (· ≠ b))
      (hchecks : x'.heap.checks =
        (x.heap.checks.drop layout x.heap.mem (map.bufferHeapBase + 32 * b.start)).1)
      (hmem : x'.heap.mem =
        (x.heap.checks.drop layout x.heap.mem (map.bufferHeapBase + 32 * b.start)).2.1) :
      Effect x x' (.free true (x.ptr layout map b))
  /-- A user writes. -/
  | written {a : ℕ} {v : BitVec 32} (hlive : x'.live = x.live)
      (hchecks : x'.heap.checks = x.heap.checks)
      (hmem : x'.heap.mem = Function.update x.heap.mem a v) : Effect x x' (.write a v)

variable {layout map} {x x' : Session} {c : BufferCall}

/-! ## What a call does -/

theorem untrack_of_unchecked (hc : x.heap.checks.enableChecks = false) (buffer : ℕ) :
    x.heap.untrack layout buffer = (x.heap, buffer, []) := by
  rw [BufferHeap.untrack, hc]
  rfl

/-- Before the heap is initialized the list is empty. -/
theorem Idle.effect_free (h : x.Idle) {lock : Bool} {buffer : ℕ}
    (hc : x.Legal layout map (.free lock buffer))
    (hx : x.call layout map (.free lock buffer) = some x') :
    Effect layout map x x' (.free lock buffer) := by
  have he : x.heap.checks.enableChecks = false := by
    by_contra he
    obtain ⟨b, hb, -⟩ := hc (by simpa using he)
    exact absurd (h.live ▸ hb) List.not_mem_nil
  have hfree : dmaBufferFree layout map lock buffer x.heap = some (x.heap, -1, []) := by
    unfold dmaBufferFree
    by_cases hlt : buffer < map.bufferHeapBase
    · rw [if_pos hlt]
      rfl
    · rw [if_neg hlt]
      cases lock with
      | false => rfl
      | true =>
        simp only [not_true_eq_false, ↓reduceIte, untrack_of_unchecked he, h.startAddr,
          h.regionSize]
        rw [if_pos (by omega)]
        rfl
  rw [Session.call, hfree] at hx
  obtain rfl := Option.some.inj hx
  exact .quiet rfl rfl rfl

theorem effect_alloc (h : Holds map x.heap.bufferManager x.live) (hmap : map.Whole)
    {lock : Bool} {size : BitVec 16} (hx : x.call layout map (.alloc lock size) = some x') :
    Effect layout map x x' (.alloc lock size) := by
  cases lock with
  | false =>
    obtain rfl : x = x' := Option.some.inj hx
    exact .quiet rfl rfl rfl
  | true =>
    have hbase := hmap.base_pos
    cases hz : x.heap.place layout size with
    | none =>
      rw [call, h.alloc_none layout hmap hz] at hx
      obtain rfl := Option.some.inj hx
      exact .quiet rfl rfl rfl
    | some z =>
      obtain ⟨m', -, heq⟩ := h.alloc_some layout hmap hz
      rw [call, heq] at hx
      cases hc : x.heap.checks.enableChecks with
      | false =>
        rw [hc] at hx
        obtain rfl := Option.some.inj hx
        exact .unchecked hc rfl rfl
      | true =>
        rw [hc] at hx
        obtain rfl := Option.some.inj hx
        refine .stored h hc hz ?_ rfl rfl
        dsimp only [BufferHeap.header]
        rw [hc, if_neg (by omega)]
        simp only [↓reduceIte, Nat.add_sub_cancel]
        unfold MemoryMap.line
        congr 2
        omega

theorem effect_free (h : Holds map x.heap.bufferManager x.live) (hmap : map.Whole)
    {lock : Bool} {buffer : ℕ} (hc : x.Legal layout map (.free lock buffer))
    (hx : x.call layout map (.free lock buffer) = some x') :
    Effect layout map x x' (.free lock buffer) := by
  have hrefused : dmaBufferFree layout map lock buffer x.heap = some (x.heap, -1, []) →
      Effect layout map x x' (.free lock buffer) := fun heq ↦ by
    rw [call, heq] at hx
    obtain rfl := Option.some.inj hx
    exact .quiet rfl rfl rfl
  by_cases hlt : buffer < map.bufferHeapBase
  · exact hrefused (by rw [dmaBufferFree, if_pos hlt]; rfl)
  · cases lock with
    | false => exact hrefused (by rw [dmaBufferFree, if_neg hlt]; rfl)
    | true =>
      cases he : x.heap.checks.enableChecks with
      | false =>
        by_cases hp : map.bufferHeapBase < (x.heap.untrack layout buffer).2.1 ∧
            (x.heap.untrack layout buffer).2.1 < map.sysMemTop
        · obtain ⟨m', -, -, heq⟩ := h.free layout hmap (Nat.not_lt.mp hlt) hp
          rw [untrack_of_unchecked he] at heq
          rw [call, heq] at hx
          obtain rfl := Option.some.inj hx
          exact .unchecked he rfl rfl
        · have heq := h.free_of_not_mem layout hmap (Nat.not_lt.mp hlt) hp
          rw [untrack_of_unchecked he] at heq
          exact hrefused heq
      | true =>
        obtain ⟨b, hb, rfl⟩ := hc he
        obtain ⟨m', -, -, heq⟩ := holds_free_ptr layout h hmap hb
        have huntrack : x.heap.untrack layout (x.ptr layout map b) =
            (⟨x.heap.bufferManager,
              (x.heap.checks.drop layout x.heap.mem (map.bufferHeapBase + 32 * b.start)).1,
              (x.heap.checks.drop layout x.heap.mem (map.bufferHeapBase + 32 * b.start)).2.1⟩,
              map.bufferHeapBase + 32 * b.start,
              (x.heap.checks.drop layout x.heap.mem (map.bufferHeapBase + 32 * b.start)).2.2) := by
          unfold BufferHeap.untrack ptr BufferHeap.header
          rw [he]
          simp only [↓reduceIte, Nat.add_sub_cancel]
        rw [call, heq] at hx
        obtain rfl := Option.some.inj hx
        rw [huntrack]
        refine .dropped he hb ?_ rfl rfl
        dsimp only
        rw [if_pos rfl, ← h.marks.cut_eq_erase hb, ptr, Nat.add_sub_cancel, line_start]

/-- **What a call does to the list**, if the users only do what they may. -/
theorem effect (h : x.Sound map) (hmap : map.Whole) (hc : x.Legal layout map c)
    (hx : x.call layout map c = some x') : Effect layout map x x' c := by
  cases c with
  | enableChecks enable badCb =>
    obtain rfl := Option.some.inj hx
    rcases h with h | h
    · refine .configured h.live h.live ?_ ?_ <;> simp [bufEnableChecks, h.usedStatus]
    · obtain ⟨usedStatus, hu, -⟩ := h.usedStatus
      refine .quiet ?_ ?_ rfl <;> simp [bufEnableChecks, hu]
  | init mutexCreate memAlloc =>
    obtain rfl := Option.some.inj hx
    exact .quiet rfl rfl rfl
  | deInit lock =>
    obtain rfl := Option.some.inj hx
    cases lock with
    | false => exact .quiet rfl rfl rfl
    | true => exact .cleared rfl rfl rfl
  | alloc lock size =>
    rcases h with h | h
    · have halloc : dmaBufferAlloc layout lock size x.heap = some (x.heap, 0) := by
        cases lock <;> simp [dmaBufferAlloc, h.startAddr]
      rw [call, halloc] at hx
      obtain rfl := Option.some.inj hx
      exact .quiet rfl rfl rfl
    · exact effect_alloc h hmap hx
  | free lock buffer =>
    rcases h with h | h
    · exact h.effect_free hc hx
    · exact Session.effect_free h hmap hc hx
  | write a v =>
    obtain rfl := Option.some.inj hx
    exact .written rfl rfl rfl

/-! ## The list -/

theorem tracked_of_eq (hchecks : x'.heap.checks = x.heap.checks) (hmem : x'.heap.mem = x.heap.mem)
    (hlive : x'.live = x.live) : x'.tracked layout map = x.tracked layout map := by
  have hblock : x'.memBlock layout map = x.memBlock layout map := by
    funext b
    rw [memBlock, memBlock, hmem]
  rw [tracked, tracked, hchecks, hlive, hblock]

theorem tracked_nil (h : x.live = []) : x.tracked layout map = [] := by
  rw [tracked, h]
  split <;> rfl

theorem tracked_of_unchecked (h : x.heap.checks.enableChecks = false) :
    x.tracked layout map = [] := by
  rw [tracked, h]
  rfl

theorem Checked.inUseList_nil (h : x.Checked layout map) (hnil : x.tracked layout map = []) :
    x.heap.checks.inUseList = 0 := by
  have hc := h.tracks.lists.chain
  rw [hnil] at hc
  exact hc

/-- A block that is allocated can be put in. -/
theorem Checked.fresh (h : x.Checked layout map) (hh : Holds map x.heap.bufferManager x.live)
    (hmap : map.Whole) (hc : x.heap.checks.enableChecks = true) {size : BitVec 16} {z : ℕ}
    (hz : x.heap.place layout size = some z) :
    Fresh layout map.bufferHeapBase map.sysMemTop (x.tracked layout map)
      ⟨map.bufferHeapBase + (z + 1) * 32, (blkSize layout true size).toNat⟩ := by
  obtain ⟨m', hm', -⟩ := hh.alloc_some layout hmap hz
  obtain ⟨-, -, hroom⟩ := blkLines_bounds layout true size
  have hlines : x.heap.lines layout size = blkLines (blkSize layout true size) := by
    rw [BufferHeap.lines, hc]
  have hsize := toNat_blkSize layout true size
  rw [if_pos rfl] at hsize
  have hstop := hm'.marks.stop_le _ List.mem_cons_self
  have hstatus := hm'.statusSize
  have hbase := hmap.base_mod
  have hmod := layout.size_mod
  refine ⟨⟨?_, ?_, ?_, ?_, ?_⟩, fun c hc' ↦ ?_⟩
  · dsimp only
    omega
  · unfold Block.stop MemoryMap.bufferHeapSize at *
    dsimp only at *
    omega
  · dsimp only
    omega
  · dsimp only
    omega
  · dsimp only
    omega
  · rw [tracked, if_pos hc] at hc'
    obtain ⟨b, hb, rfl⟩ := List.mem_map.mp hc'
    have hap := (List.pairwise_cons.mp hm'.marks.apart).1 b hb
    have := h.room b hb hc
    unfold Block.Apart Block.stop at hap
    unfold MemBlock.Apart
    dsimp only [memBlock] at *
    omega

theorem memBlock_mem (hc : x.heap.checks.enableChecks = true) {b : Block} (hb : b ∈ x.live) :
    x.memBlock layout map b ∈ x.tracked layout map := by
  rw [tracked, if_pos hc]
  exact List.mem_map_of_mem hb

/-- A block whose size has not been overwritten. -/
theorem memBlock_eq {b : Block}
    (hfield : x'.heap.mem.field layout .allocSize (map.bufferHeapBase + 32 * b.start) =
      x.heap.mem.field layout .allocSize (map.bufferHeapBase + 32 * b.start)) :
    x'.memBlock layout map b = x.memBlock layout map b := by
  rw [memBlock, memBlock, hfield]

/-- The blocks when one has been put in. -/
theorem Checked.memBlock_stored (h : x.Checked layout map)
    (hh : Holds map x.heap.bufferManager x.live) (hmap : map.Whole)
    (hc : x.heap.checks.enableChecks = true) {size : BitVec 16} {z : ℕ}
    (hz : x.heap.place layout size = some z)
    (hmem : x'.heap.mem = (x.heap.checks.store layout x.heap.mem
      (map.bufferHeapBase + (z + 1) * 32) (blkSize layout true size).toNat).2) :
    x'.memBlock layout map ⟨z + 1, x.heap.lines layout size⟩ =
        ⟨map.bufferHeapBase + (z + 1) * 32, (blkSize layout true size).toNat⟩ ∧
      ∀ b ∈ x.live, x'.memBlock layout map b = x.memBlock layout map b := by
  have hfresh := h.fresh hh hmap hc hz
  constructor
  · have hfield := field_store_new (f := .allocSize) h.tracks hfresh
    rw [memBlock, Nat.mul_comm 32, hmem]
    dsimp only at hfield ⊢
    rw [hfield, BitVec.toNat_ofNat, Nat.mod_eq_of_lt (blkSize layout true size).isLt]
  · intro b hb
    have hfield := field_store_old (f := .allocSize) h.tracks hfresh (memBlock_mem hc hb)
    rw [if_neg (by simp)] at hfield
    refine memBlock_eq ?_
    rw [hmem]
    exact hfield

/-- The blocks when one has been taken out. -/
theorem Checked.memBlock_dropped (h : x.Checked layout map)
    (hc : x.heap.checks.enableChecks = true) {b c : Block} (hb : b ∈ x.live) (hcl : c ∈ x.live)
    (hmem : x'.heap.mem =
      (x.heap.checks.drop layout x.heap.mem (map.bufferHeapBase + 32 * b.start)).2.1) :
    x'.memBlock layout map c = x.memBlock layout map c := by
  have hfield := field_drop (f := .allocSize) h.tracks (memBlock_mem hc hb) (memBlock_mem hc hcl)
  rw [if_neg (by simp), if_neg (by simp)] at hfield
  refine memBlock_eq ?_
  rw [hmem]
  exact hfield

/-- The blocks when a user has written elsewhere. -/
theorem memBlock_written {a : ℕ} {v : BitVec 32} (hc : x.heap.checks.enableChecks = true)
    (ha : ∀ b ∈ x.tracked layout map, ¬ b.Link layout a) {b : Block} (hb : b ∈ x.live)
    (hmem : x'.heap.mem = Function.update x.heap.mem a v) :
    x'.memBlock layout map b = x.memBlock layout map b := by
  refine memBlock_eq ?_
  rw [hmem]
  exact Function.update_of_ne (fun he ↦ ha _ (memBlock_mem hc hb) (Or.inl he.symm)) _ _

/-- The list when a block has been taken out. -/
theorem tracked_dropped (hh : Holds map x.heap.bufferManager x.live)
    (hc : x.heap.checks.enableChecks = true) (hc' : x'.heap.checks.enableChecks = true)
    {b : Block} (hb : b ∈ x.live) (hlive : x'.live = x.live.filter (· ≠ b))
    (hsame : ∀ c ∈ x.live, x'.memBlock layout map c = x.memBlock layout map c) :
    x'.tracked layout map = (x.tracked layout map).erase (x.memBlock layout map b) := by
  have hinj : ∀ c ∈ x.live, x.memBlock layout map c = x.memBlock layout map b → c = b :=
    fun c hcl he ↦ by
      have haddr := congrArg MemBlock.addr he
      dsimp only [memBlock] at haddr
      exact hh.marks.eq_of_start hcl hb (by omega)
  have herase : x.live.filter (· ≠ b) = x.live.erase b := by
    rw [hh.marks.nodup.erase_eq_filter]
    refine List.filter_congr fun c _ ↦ ?_
    rw [Bool.eq_iff_iff]
    simp
  rw [tracked, if_pos hc', hlive,
    List.map_congr_left fun c hcl ↦ hsame c (List.mem_of_mem_filter hcl), herase,
    Links.map_erase_of_inj hinj, tracked, if_pos hc]

/-- The list when a block has been put in. -/
theorem Checked.tracked_stored (h : x.Checked layout map)
    (hh : Holds map x.heap.bufferManager x.live) (hmap : map.Whole)
    (hc : x.heap.checks.enableChecks = true) {size : BitVec 16} {z : ℕ}
    (hz : x.heap.place layout size = some z)
    (hlive : x'.live = ⟨z + 1, x.heap.lines layout size⟩ :: x.live)
    (hchecks : x'.heap.checks = (x.heap.checks.store layout x.heap.mem
      (map.bufferHeapBase + (z + 1) * 32) (blkSize layout true size).toNat).1)
    (hmem : x'.heap.mem = (x.heap.checks.store layout x.heap.mem
      (map.bufferHeapBase + (z + 1) * 32) (blkSize layout true size).toNat).2) :
    x'.tracked layout map =
      ⟨map.bufferHeapBase + (z + 1) * 32, (blkSize layout true size).toNat⟩ ::
        x.tracked layout map := by
  obtain ⟨hnew, hold⟩ := h.memBlock_stored hh hmap hc hz hmem
  have hc' : x'.heap.checks.enableChecks = true := by
    rw [hchecks, ← hc]
    rfl
  rw [tracked, if_pos hc', hlive, List.map_cons, hnew, List.map_congr_left hold, tracked, if_pos hc]

/-- The list when a user has written elsewhere. -/
theorem tracked_written {a : ℕ} {v : BitVec 32}
    (ha : ∀ b ∈ x.tracked layout map, ¬ b.Link layout a) (hlive : x'.live = x.live)
    (hchecks : x'.heap.checks = x.heap.checks)
    (hmem : x'.heap.mem = Function.update x.heap.mem a v) :
    x'.tracked layout map = x.tracked layout map := by
  rw [tracked, tracked, hchecks, hlive]
  by_cases hc : x.heap.checks.enableChecks = true
  · rw [if_pos hc, if_pos hc]
    exact List.map_congr_left fun b hb ↦ memBlock_written hc ha hb hmem
  · rw [if_neg hc, if_neg hc]

/-- A session without blocks in the list. -/
theorem Checked.of_nil (hs : x.Sound map) (hmap : map.Whole) (hnil : x.tracked layout map = [])
    (hlive : x.live = [] ∨ x.heap.checks.enableChecks = false)
    (hhead : x.heap.checks.inUseList = 0)
    (hcount : x.heap.checks.allocCnt = x.heap.checks.freeCnt) : x.Checked layout map where
  sound := hs
  tracks := by
    rw [hnil]
    exact tracks_nil hmap.base_pos hmap.top_le hhead
  room b hb hc := by
    rcases hlive with hlive | hlive
    · exact absurd (hlive ▸ hb) List.not_mem_nil
    · exact absurd (hc.symm.trans hlive) (by simp)
  count := by
    rw [hnil, hcount]
    simp

theorem Checked.count_nil (h : x.Checked layout map) (hnil : x.tracked layout map = []) :
    x.heap.checks.allocCnt = x.heap.checks.freeCnt := by
  rw [h.count, hnil]
  simp

theorem Checked.call (h : x.Checked layout map) (hmap : map.Whole) (hc : x.Legal layout map c)
    (hx : x.call layout map c = some x') : x'.Checked layout map := by
  have hs : x'.Sound map := by
    obtain ⟨x'', hx'', hs⟩ := h.sound.call layout hmap c
    rw [hx] at hx''
    exact Option.some.inj hx'' ▸ hs
  have hholds : ∀ b ∈ x.live, Holds map x.heap.bufferManager x.live := fun b hb ↦
    h.sound.resolve_left fun hidle ↦ absurd (hidle.live ▸ hb) List.not_mem_nil
  have htracks := h.tracks
  cases effect h.sound hmap hc hx with
  | quiet hchecks hmem hlive =>
    have ht : x'.tracked layout map = x.tracked layout map := tracked_of_eq hchecks hmem hlive
    refine ⟨hs, by rw [ht, hchecks, hmem]; exact htracks, fun b hb he ↦ ?_, ?_⟩
    · rw [show x'.memBlock layout map b = x.memBlock layout map b from memBlock_eq (by rw [hmem])]
      exact h.room b (hlive ▸ hb) (hchecks ▸ he)
    · rw [ht, hchecks]
      exact h.count
  | unchecked he hchecks hmem =>
    have hnil : x.tracked layout map = [] := tracked_of_unchecked he
    have he' : x'.heap.checks.enableChecks = false := by rw [hchecks, he]
    refine Checked.of_nil hs hmap (tracked_of_unchecked he') (Or.inr he') ?_ ?_
    · rw [hchecks, h.inUseList_nil hnil]
    · rw [hchecks, h.count_nil hnil]
  | configured hlive hlive' hchecks hmem =>
    have hnil : x.tracked layout map = [] := tracked_nil hlive
    refine Checked.of_nil hs hmap (tracked_nil hlive') (Or.inl hlive') ?_ ?_
    · rw [hchecks]
      exact h.inUseList_nil hnil
    · rw [hchecks]
      exact h.count_nil hnil
  | cleared hlive hchecks hmem =>
    refine Checked.of_nil hs hmap (tracked_nil hlive) (Or.inl hlive) ?_ ?_ <;> rw [hchecks]
  | @stored size z hh he hz hlive hchecks hmem =>
    have hfresh := h.fresh hh hmap he hz
    obtain ⟨hnew, hold⟩ := h.memBlock_stored hh hmap he hz hmem
    have ht := h.tracked_stored hh hmap he hz hlive hchecks hmem
    refine ⟨hs, ?_, fun b hb _ ↦ ?_, ?_⟩
    · rw [ht, hchecks, hmem]
      exact htracks.store hfresh
    · rcases List.mem_cons.mp (hlive ▸ hb) with rfl | hb
      · rw [hnew, BufferHeap.lines, he]
        exact (blkLines_bounds layout true size).2.2
      · rw [hold b hb]
        exact h.room b hb he
    · rw [ht, hchecks, List.length_cons, BitVec.ofNat_add, ← BitVec.add_assoc]
      change x.heap.checks.allocCnt + 1 = _
      rw [h.count]
      rfl
  | @dropped b he hb hlive hchecks hmem =>
    have hh := hholds b hb
    have hsame : ∀ c ∈ x.live, x'.memBlock layout map c = x.memBlock layout map c :=
      fun c hcl ↦ h.memBlock_dropped he hb hcl hmem
    have he' : x'.heap.checks.enableChecks = true := by
      rw [hchecks, ← he]
      rfl
    have hmemb : x.memBlock layout map b ∈ x.tracked layout map := memBlock_mem he hb
    have ht := tracked_dropped hh he he' hb hlive hsame
    refine ⟨hs, ?_, fun c hcl _ ↦ ?_, ?_⟩
    · rw [ht, hchecks, hmem]
      exact htracks.drop hmemb
    · have hcl := List.mem_of_mem_filter (hlive ▸ hcl)
      rw [hsame c hcl]
      exact h.room c hcl he
    · have hlen := List.length_erase_add_one hmemb
      rw [ht, hchecks]
      change x.heap.checks.allocCnt = x.heap.checks.freeCnt + 1 + _
      rw [h.count, ← hlen, BitVec.ofNat_add, BitVec.add_assoc, BitVec.add_comm 1]
      rfl
  | @written a v hlive hchecks hmem =>
    have ht := tracked_written hc hlive hchecks hmem
    refine ⟨hs, ?_, fun b hb he ↦ ?_, ?_⟩
    · rw [ht, hchecks, hmem]
      exact htracks.write hc
    · rw [memBlock_written (hchecks ▸ he) hc (hlive ▸ hb) hmem]
      exact h.room b (hlive ▸ hb) (hchecks ▸ he)
    · rw [ht, hchecks]
      exact h.count

/-- **The list has exactly the blocks that are in use**, and the counters differ by their number. -/
theorem Reach.checked (h : Reach layout map x) (hmap : map.Whole) : x.Checked layout map := by
  induction h with
  | start mem =>
    exact Checked.of_nil (Or.inl ⟨rfl, rfl, rfl, rfl⟩) hmap rfl (Or.inl rfl) rfl rfl
  | call _ hc hx ih => exact ih.call hmap hc hx

/-! ## Users who do not damage anything -/

section proper

variable (layout map)

/-- The blocks are where the list says, and the counters count them. -/
structure Listed (x : Session) : Prop where
  /-- Following the pointers from the first block gives the blocks in use, and both ways agree. -/
  list : (x.heap.checks.links layout x.heap.mem).Chain 0 0
    ((x.tracked layout map).map MemBlock.addr) (bufGetActiveList x.heap)
  /-- No byte belongs to two of them. -/
  apart : (x.tracked layout map).Pairwise MemBlock.Apart
  counts : (bufGetCounts x.heap).1 =
    (bufGetCounts x.heap).2 + BitVec.ofNat 32 (x.tracked layout map).length

/-- The signatures are not overwritten. -/
def Spares (x : Session) : BufferCall → Prop
  | .write a _ => ∀ b ∈ x.tracked layout map, ¬ b.Signature layout a
  | _ => True

/-- The sessions whose users leave headers and footers alone. -/
inductive Proper : Session → Prop
  | start (mem : Memory) : Proper (start mem)
  | call {x x' : Session} {c : BufferCall} (h : Proper x) (hc : x.Legal layout map c)
      (hs : x.Spares layout map c) (hx : x.call layout map c = some x') : Proper x'

end proper

theorem Proper.reach (h : Proper layout map x) : Reach layout map x := by
  induction h with
  | start mem => exact .start mem
  | call _ hc _ hx ih => exact .call ih hc hx

/-- **Every block keeps its signatures.** -/
theorem Proper.intact (h : Proper layout map x) (hmap : map.Whole) :
    ∀ b ∈ x.tracked layout map, x.heap.mem.Intact layout b.addr := by
  induction h with
  | start mem => exact fun b hb ↦ absurd hb List.not_mem_nil
  | @call x x' c h hc hs hx ih =>
    have hchecked := h.reach.checked hmap
    have htracks := hchecked.tracks
    cases effect hchecked.sound hmap hc hx with
    | quiet hchecks hmem hlive =>
      rw [tracked_of_eq hchecks hmem hlive, hmem]
      exact ih
    | unchecked he hchecks hmem =>
      have he' : x'.heap.checks.enableChecks = false := by rw [hchecks, he]
      rw [tracked_of_unchecked he']
      exact fun b hb ↦ absurd hb List.not_mem_nil
    | configured _ hlive' _ _ =>
      rw [tracked_nil hlive']
      exact fun b hb ↦ absurd hb List.not_mem_nil
    | cleared hlive _ _ =>
      rw [tracked_nil hlive]
      exact fun b hb ↦ absurd hb List.not_mem_nil
    | stored hh he hz hlive hchecks hmem =>
      have hfresh := hchecked.fresh hh hmap he hz
      rw [hchecked.tracked_stored hh hmap he hz hlive hchecks hmem, hmem]
      intro b hb
      refine (intact_store htracks hfresh hb).mpr ?_
      exact (List.mem_cons.mp hb).imp_right (ih b)
    | @dropped b he hb hlive hchecks hmem =>
      have hh : Holds map x.heap.bufferManager x.live :=
        hchecked.sound.resolve_left fun hidle ↦ absurd (hidle.live ▸ hb) List.not_mem_nil
      have he' : x'.heap.checks.enableChecks = true := by
        rw [hchecks, ← he]
        rfl
      rw [tracked_dropped hh he he' hb hlive fun c hcl ↦
        hchecked.memBlock_dropped he hb hcl hmem, hmem]
      exact fun c hcb ↦ (intact_drop htracks (memBlock_mem he hb) hcb).mpr
        (ih c (List.mem_of_mem_erase hcb))
    | @written a v hlive hchecks hmem =>
      rw [tracked_written hc hlive hchecks hmem, hmem]
      intro b hb
      have hb' := (htracks.intact_iff hb).mp (ih b hb)
      refine ((htracks.write hc).intact_iff hb).mpr ⟨?_, ?_⟩
      · exact (Function.update_of_ne (fun heq ↦ hs b hb (.inl heq.symm)) _ _).trans hb'.1
      · exact (Function.update_of_ne (fun heq ↦ hs b hb (.inr heq.symm)) _ _).trans hb'.2

/-- The users of a single block of 100 bytes do not damage anything. -/
theorem proper_oneBlock : ∃ x : Session, Proper .inOrder .cymem512k x ∧ x.live = [⟨1, 4⟩] ∧
    x.tracked .inOrder .cymem512k = [⟨0x40040020, 124⟩] := by
  have hchecks : Proper .inOrder .cymem512k _ :=
    .call (c := .enableChecks true true) (.start fun _ ↦ 0) trivial trivial rfl
  have hinit : Proper .inOrder .cymem512k _ :=
    .call (c := .init true true) hchecks trivial trivial rfl
  exact ⟨_, .call (c := .alloc true 100) hinit trivial trivial rfl, rfl, rfl⟩

/-! ## What the users can rely on -/

/-- The check goes through the list. -/
theorem Checked.bufCorruptionCheck (h : x.Checked layout map) {fuel : ℕ}
    (hfuel : x.live.length ≤ fuel) :
    Fx3.bufCorruptionCheck layout map fuel x.heap =
      match (x.tracked layout map).find? fun b ↦ ¬ x.heap.mem.Intact layout b.addr with
      | none => some (true, [])
      | some b => some (false, x.heap.checks.badBlock layout b.addr) := by
  refine corruptionCheck_chain h.tracks (fun _ hb ↦ hb) h.tracks.lists.chain ?_
  unfold tracked
  split
  · rwa [List.length_map]
  · exact Nat.zero_le _

/-- **The check finds the newest block with a damaged signature**, and calls the callback for it, if
there is one; otherwise it succeeds. -/
theorem bufCorruptionCheck_eq (h : Reach layout map x) (hmap : map.Whole) {fuel : ℕ}
    (hfuel : x.live.length ≤ fuel) :
    bufCorruptionCheck layout map fuel x.heap =
      match (x.tracked layout map).find? fun b ↦ ¬ x.heap.mem.Intact layout b.addr with
      | none => some (true, [])
      | some b => some (false, x.heap.checks.badBlock layout b.addr) :=
  (h.checked hmap).bufCorruptionCheck hfuel

/-- The end signature of a block is overwritten, and the callback is called for it. -/
theorem bufCorruptionCheck_eq_overwritten : ∃ x : Session, x.live = [⟨1, 4⟩] ∧
    bufCorruptionCheck .inOrder .cymem512k 1 x.heap = some (false, [0x40040034]) := by
  have hchecks : Reach .inOrder .cymem512k _ :=
    .call (c := .enableChecks true true) (.start fun _ ↦ 0) trivial rfl
  have hinit : Reach .inOrder .cymem512k _ := .call (c := .init true true) hchecks trivial rfl
  have halloc : Reach .inOrder .cymem512k _ := .call (c := .alloc true 100) hinit trivial rfl
  have hwrite : Reach .inOrder .cymem512k _ :=
    .call (c := .write 0x40040098 0) halloc (fun b hb ↦ ?_) rfl
  · exact ⟨_, rfl,
      (bufCorruptionCheck_eq hwrite MemoryMap.whole_cymem512k (Nat.le_refl 1)).trans rfl⟩
  · obtain rfl : b = ⟨0x40040020, 124⟩ := List.mem_singleton.mp hb
    rintro (h | h | h) <;> exact absurd h (by decide)

/-- **The heap does not write into a block that somebody has**, behind its header. -/
theorem call_frame (h : Reach layout map x) (hmap : map.Whole) (hc : x.Legal layout map c)
    (hx : x.call layout map c = some x') (hw : ∀ a v, c ≠ .write a v) {b : MemBlock}
    (hb : b ∈ x.tracked layout map) {a : ℕ}
    (ha : b.addr + layout.size ≤ a ∧ a < b.addr + b.size) :
    x'.heap.mem a = x.heap.mem a := by
  have hchecked := h.checked hmap
  have htracks := hchecked.tracks
  have hlink := not_link_of_payload htracks hb ha
  cases effect hchecked.sound hmap hc hx with
  | quiet hchecks hmem hlive => rw [hmem]
  | unchecked he hchecks hmem => rw [hmem]
  | configured hlive hlive' hchecks hmem => rw [hmem]
  | cleared hlive hchecks hmem => rw [hmem]
  | stored hh he hz hlive hchecks hmem =>
    have hfresh := hchecked.fresh hh hmap he hz
    rw [hmem]
    refine store_of_not_mem hfresh.within ?_ fun hhead ↦ ?_
    · rcases hfresh.apart b hb with hap | hap <;> omega
    · obtain ⟨d, hd, hda⟩ := htracks.head_mem hhead
      exact fun hea ↦ hlink d hd (Or.inr (Or.inr (hda ▸ hea)))
  | dropped he hb' hlive hchecks hmem =>
    rw [hmem]
    exact drop_of_not_link htracks (memBlock_mem he hb') hlink
  | written hlive hchecks hmem => exact absurd rfl (hw _ _)

/-- A second block is taken, and a word of the first is left as it is. -/
theorem call_frame_oneBlock : ∃ x x' : Session, x.live = [⟨1, 4⟩] ∧
    x.call .inOrder .cymem512k (.alloc true 5000) = some x' ∧
    x'.heap.mem 0x40040044 = x.heap.mem 0x40040044 := by
  obtain ⟨x, hx, hlive, htracked⟩ := proper_oneBlock
  obtain ⟨x', hx', -⟩ := (hx.reach.checked MemoryMap.whole_cymem512k).sound.call .inOrder
    MemoryMap.whole_cymem512k (.alloc true 5000)
  have hb : ⟨0x40040020, 124⟩ ∈ x.tracked .inOrder .cymem512k := by simp [htracked]
  exact ⟨x, x', hlive, hx', call_frame (c := .alloc true 5000) hx.reach MemoryMap.whole_cymem512k
    trivial hx' (fun a v ↦ by simp) hb (by decide)⟩

/-- Giving back a block with its signatures calls no callback. -/
theorem untrack_of_intact {b : Block}
    (h : x.heap.checks.enableChecks = true →
      x.heap.mem.Intact layout (map.bufferHeapBase + 32 * b.start)) :
    (x.heap.untrack layout (x.ptr layout map b)).2.2 = [] := by
  rw [BufferHeap.untrack]
  split
  case isTrue hc =>
    have hblock : x.ptr layout map b - layout.size = map.bufferHeapBase + 32 * b.start := by
      rw [ptr, BufferHeap.header, hc, if_pos rfl, Nat.add_sub_cancel]
    dsimp only [Tracking.drop]
    rw [hblock, if_pos (h hc)]
  case isFalse => rfl

/-- **The list and the counters**, as they are shown to the users. -/
theorem listed (h : Reach layout map x) (hmap : map.Whole) : x.Listed layout map where
  list := (h.checked hmap).tracks.lists.chain
  apart := (h.checked hmap).tracks.apart
  counts := (h.checked hmap).count

/-- The list of a single block. -/
theorem listed_oneBlock : ∃ x : Session, x.tracked .inOrder .cymem512k = [⟨0x40040020, 124⟩] ∧
    x.Listed .inOrder .cymem512k := by
  obtain ⟨x, hx, -, htracked⟩ := proper_oneBlock
  exact ⟨x, htracked, listed hx.reach MemoryMap.whole_cymem512k⟩

/-- **No false alarms**: if no user damages anything, the check succeeds, and no callback is called
for a block that is given back. -/
theorem no_false_alarm (h : Proper layout map x) (hmap : map.Whole) {fuel : ℕ}
    (hfuel : x.live.length ≤ fuel) :
    bufCorruptionCheck layout map fuel x.heap = some (true, []) ∧
      ∀ b ∈ x.live, ∃ heap,
        dmaBufferFree layout map true (x.ptr layout map b) x.heap = some (heap, 0, []) := by
  have hchecked := h.reach.checked hmap
  have hintact := h.intact hmap
  constructor
  · have hnone : ((x.tracked layout map).find? fun b ↦ ¬ x.heap.mem.Intact layout b.addr) = none :=
      List.find?_eq_none.mpr fun b hb hnot ↦ of_decide_eq_true hnot (hintact b hb)
    rw [hchecked.bufCorruptionCheck hfuel, hnone]
  · intro b hb
    have hh : Holds map x.heap.bufferManager x.live :=
      hchecked.sound.resolve_left fun hidle ↦ absurd (hidle.live ▸ hb) List.not_mem_nil
    obtain ⟨m', -, -, hfree⟩ := holds_free_ptr layout hh hmap hb
    rw [untrack_of_intact fun hc ↦ hintact _ (memBlock_mem hc hb)] at hfree
    exact ⟨_, hfree⟩

/-- No alarm for a single block. -/
theorem no_false_alarm_oneBlock : ∃ x : Session, x.live = [⟨1, 4⟩] ∧
    bufCorruptionCheck .inOrder .cymem512k 1 x.heap = some (true, []) ∧
      ∀ b ∈ x.live, ∃ heap,
        dmaBufferFree .inOrder .cymem512k true (x.ptr .inOrder .cymem512k b) x.heap =
          some (heap, 0, []) := by
  obtain ⟨x, hx, hlive, -⟩ := proper_oneBlock
  exact ⟨x, hlive, no_false_alarm hx MemoryMap.whole_cymem512k (by simp [hlive])⟩

end Session

end Fx3
end Usb3FpgaCard
