import Mathlib.Algebra.Group.Nat.Defs
import Mathlib.Data.List.Pairwise
import Usb3FpgaCard.Allocation.Links

/-!
# Leak and corruption checks: `fx3/cyfxtx.c`

The driver heap and the buffer heap each have variables for these checks, and the code that works on
them is the same: `CyU3PMemAlloc` and `CyU3PDmaBufferAlloc` put a header in front of a block and a
signature behind it and put it into the list of the blocks in use, `CyU3PMemFree` and
`CyU3PDmaBufferFree` look at the signatures and take it out again, and `CyU3PMemCorruptionCheck` and
`CyU3PBufCorruptionCheck` go through the list.

The header and the list are in the memory that the blocks are taken from.  `Tracks` says what must
be found there.  It is kept when a block is put in (`Tracks.store`) or taken out (`Tracks.drop`),
and by every other write that spares the links and the sizes (`Tracks.write`); then the check
succeeds exactly if every signature is intact (`corruptionCheck_eq`).
-/

set_option autoImplicit false

namespace Usb3FpgaCard
namespace Fx3

open Allocation

/-! ## The memory -/

/-- `CY_U3P_MEM_START_SIG`. -/
def memStartSig : BitVec 32 := 0x4658334D

/-- `CY_U3P_MEM_END_SIG`. -/
def memEndSig : BitVec 32 := 0x454E444D

/-- The words of the memory by their addresses, which are multiples of four. -/
abbrev Memory := ℕ → BitVec 32

/-- The fields of `MemBlockInfo`; each is a word. -/
inductive Field where
  | allocId
  | allocSize
  | prevBlk
  | nextBlk
  | startSig
  deriving DecidableEq

/-- Where the fields are.  The SDK declares the structure: nothing depends on their order, nor on
what is between them and behind them. -/
structure Layout where
  /-- `sizeof (MemBlockInfo)`. -/
  size : ℕ
  word : Field → ℕ
  word_lt : ∀ f, 4 * word f + 4 ≤ size
  injective : Function.Injective word
  size_mod : size % 4 = 0
  size_le : size ≤ 1024

/-- The fields one after the other: "a 20 byte header". -/
def Layout.inOrder : Layout where
  size := 20
  word
    | .allocId => 0
    | .allocSize => 1
    | .prevBlk => 2
    | .nextBlk => 3
    | .startSig => 4
  word_lt f := by cases f <;> decide
  injective f g h := by cases f <;> cases g <;> first | rfl | exact absurd h (by decide)
  size_mod := rfl
  size_le := by decide

theorem Layout.size_pos (layout : Layout) : 0 < layout.size := by
  have := layout.word_lt .startSig
  omega

variable (layout : Layout)

/-- `block_p->f`. -/
def Memory.field (mem : Memory) (f : Field) (blockP : ℕ) : BitVec 32 :=
  mem (blockP + 4 * layout.word f)

/-- `block_p->f = v`. -/
def Memory.setField (mem : Memory) (f : Field) (blockP : ℕ) (v : BitVec 32) : Memory :=
  Function.update mem (blockP + 4 * layout.word f) v

/-- A pointer in the header. -/
def Memory.pointer (mem : Memory) (f : Field) (blockP : ℕ) : ℕ := (mem.field layout f blockP).toNat

/-! ## The variables of a heap -/

/-- The variables for the checks: `glMemEnableChecks` and so on for the driver heap,
`glBufMgrEnableChecks` and so on for the buffer heap. -/
structure Tracking where
  enableChecks : Bool
  allocCnt : BitVec 32
  freeCnt : BitVec 32
  /-- The block that was taken last, 0 if there is none. -/
  inUseList : ℕ
  /-- There is a callback for corrupted memory. -/
  badCb : Bool

/-- The header and the footer of a new block, which becomes the first of the list. -/
def Tracking.store (t : Tracking) (mem : Memory) (blockP size : ℕ) : Tracking × Memory :=
  let mem := mem.setField layout .allocId blockP t.allocCnt
  let mem := mem.setField layout .allocSize blockP (BitVec.ofNat 32 size)
  let mem := mem.setField layout .prevBlk blockP (BitVec.ofNat 32 t.inUseList)
  let mem := mem.setField layout .nextBlk blockP 0
  let mem := mem.setField layout .startSig blockP memStartSig
  let mem :=
    if t.inUseList ≠ 0 then
      mem.setField layout .nextBlk t.inUseList (BitVec.ofNat 32 blockP)
    else mem
  let mem := Function.update mem (blockP + 4 * (size / 4 - 1)) memEndSig
  ({ t with allocCnt := t.allocCnt + 1, inUseList := blockP }, mem)

/-- The signatures of a block are there. -/
def Memory.Intact (mem : Memory) (blockP : ℕ) : Prop :=
  mem.field layout .startSig blockP = memStartSig ∧
    mem (blockP + (mem.field layout .allocSize blockP).toNat - 4) = memEndSig

instance (mem : Memory) (blockP : ℕ) : Decidable (mem.Intact layout blockP) :=
  inferInstanceAs (Decidable (_ ∧ _))

/-- The callback, if there is one, is given the address behind the header. -/
def Tracking.badBlock (t : Tracking) (blockP : ℕ) : List ℕ :=
  if t.badCb then [blockP + layout.size] else []

/-- A block that is freed is taken out of the list; what the callback is called with. -/
def Tracking.drop (t : Tracking) (mem : Memory) (blockP : ℕ) : Tracking × Memory × List ℕ :=
  let bad := if mem.Intact layout blockP then [] else t.badBlock layout blockP
  let mem :=
    if mem.pointer layout .nextBlk blockP ≠ 0 then
      mem.setField layout .prevBlk (mem.pointer layout .nextBlk blockP)
        (mem.field layout .prevBlk blockP)
    else mem
  let mem :=
    if mem.pointer layout .prevBlk blockP ≠ 0 then
      mem.setField layout .nextBlk (mem.pointer layout .prevBlk blockP)
        (mem.field layout .nextBlk blockP)
    else mem
  let inUseList :=
    if t.inUseList = blockP then mem.pointer layout .prevBlk blockP else t.inUseList
  ({ t with freeCnt := t.freeCnt + 1, inUseList := inUseList }, mem, bad)

/-- `CyU3PMemCorruptionCheck` and `CyU3PBufCorruptionCheck`, of the heap from `lo` to before `hi`:
whether they return `CY_U3P_SUCCESS`, and what the callback is called with.  No more than `fuel`
blocks are looked at. -/
def Tracking.corruptionCheck (t : Tracking) (mem : Memory) (lo hi : ℕ) :
    (fuel : ℕ) → (blockP : ℕ) → Option (Bool × List ℕ)
  | 0, blockP => if blockP ≠ 0 then none else some (true, [])
  | fuel + 1, blockP =>
    if blockP ≠ 0 then
      if blockP < lo ∨ hi ≤ blockP then some (false, [])
      else if ¬ mem.Intact layout blockP then some (false, t.badBlock layout blockP)
      else t.corruptionCheck mem lo hi fuel (mem.pointer layout .prevBlk blockP)
    else some (true, [])

/-! ## The blocks in use -/

/-- A block with its header and its footer. -/
structure MemBlock where
  addr : ℕ
  size : ℕ
  deriving DecidableEq

namespace MemBlock

/-- A block of whole words from `lo` to before `hi`, with room for the header and the footer. -/
structure Within (lo hi : ℕ) (b : MemBlock) : Prop where
  le : lo ≤ b.addr
  stop_le : b.addr + b.size ≤ hi
  le_size : layout.size + 4 ≤ b.size
  addr_mod : b.addr % 4 = 0
  size_mod : b.size % 4 = 0

/-- The blocks have no byte in common. -/
def Apart (b c : MemBlock) : Prop := b.addr + b.size ≤ c.addr ∨ c.addr + c.size ≤ b.addr

instance : Std.Symm Apart where
  symm _ _ h := Or.symm h

/-- The word at `a` is the size or a pointer of the block. -/
def Link (b : MemBlock) (a : ℕ) : Prop :=
  a = b.addr + 4 * layout.word .allocSize ∨ a = b.addr + 4 * layout.word .prevBlk ∨
    a = b.addr + 4 * layout.word .nextBlk

/-- The word at `a` is one of the two signatures of the block. -/
def Signature (b : MemBlock) (a : ℕ) : Prop :=
  a = b.addr + 4 * layout.word .startSig ∨ a = b.addr + b.size - 4

end MemBlock

/-- The list of the blocks in use, as it is in the memory. -/
def Tracking.links (t : Tracking) (mem : Memory) : Links ℕ where
  head := t.inUseList
  prev := mem.pointer layout .prevBlk
  next := mem.pointer layout .nextBlk

/-- The blocks `bs` are in use, the newest first, in a heap from `lo` to before `hi`. -/
structure Tracks (lo hi : ℕ) (t : Tracking) (mem : Memory) (bs : List MemBlock) : Prop where
  lo_pos : 0 < lo
  hi_le : hi ≤ 2 ^ 32
  within : ∀ b ∈ bs, b.Within layout lo hi
  apart : bs.Pairwise MemBlock.Apart
  lists : (t.links layout mem).Lists 0 (bs.map MemBlock.addr)
  size_eq : ∀ b ∈ bs, mem.field layout .allocSize b.addr = BitVec.ofNat 32 b.size

section Fields

variable {layout} {mem : Memory} {f g : Field} {p q a : ℕ} {v : BitVec 32}

theorem field_setField_self : (mem.setField layout f p v).field layout f p = v :=
  Function.update_self _ _ _

theorem field_setField_of_ne (h : g ≠ f) :
    (mem.setField layout f p v).field layout g p = mem.field layout g p :=
  Function.update_of_ne (fun he ↦ h (layout.injective (by omega))) _ _

/-- The headers of two blocks have nothing in common. -/
theorem field_setField_of_apart (h : p + layout.size ≤ q ∨ q + layout.size ≤ p) :
    (mem.setField layout f p v).field layout g q = mem.field layout g q := by
  refine Function.update_of_ne (fun he ↦ ?_) _ _
  have := layout.word_lt f
  have := layout.word_lt g
  omega

theorem field_update (h : a < q ∨ q + layout.size ≤ a) :
    Memory.field layout (Function.update mem a v) g q = mem.field layout g q := by
  refine Function.update_of_ne (fun he ↦ ?_) _ _
  have := layout.word_lt g
  omega

end Fields

section Tracks

variable {layout} {lo hi : ℕ} {t : Tracking} {mem : Memory} {bs : List MemBlock} {b c : MemBlock}
  {f : Field} {a : ℕ} {v : BitVec 32}

/-- An empty list. -/
theorem tracks_nil (hlo : 0 < lo) (hhi : hi ≤ 2 ^ 32) (ht : t.inUseList = 0) :
    Tracks layout lo hi t mem [] where
  lo_pos := hlo
  hi_le := hhi
  within _ hb := absurd hb List.not_mem_nil
  apart := List.Pairwise.nil
  lists := ⟨ht, List.nodup_nil, List.not_mem_nil⟩
  size_eq _ hb := absurd hb List.not_mem_nil

namespace Tracks

theorem inUseList_nil (h : Tracks layout lo hi t mem []) : t.inUseList = 0 := h.lists.chain

theorem nodup (h : Tracks layout lo hi t mem bs) : bs.Nodup :=
  List.Pairwise.of_map MemBlock.addr (fun _ _ hne he ↦ hne (congrArg _ he)) h.lists.nodup

theorem addr_lt (h : Tracks layout lo hi t mem bs) (hb : b ∈ bs) : b.addr < 2 ^ 32 := by
  have hw := h.within b hb
  have := hw.stop_le
  have := hw.le_size
  have := h.hi_le
  omega

theorem addr_pos (h : Tracks layout lo hi t mem bs) (hb : b ∈ bs) : b.addr ≠ 0 := by
  have := (h.within b hb).le
  have := h.lo_pos
  omega

/-- Different blocks are at different addresses, and neither is in the other's header. -/
theorem apart_header (h : Tracks layout lo hi t mem bs) (hb : b ∈ bs) (hc : c ∈ bs) (hne : b ≠ c) :
    b.addr + layout.size ≤ c.addr ∨ c.addr + layout.size ≤ b.addr := by
  have := (h.within b hb).le_size
  have := (h.within c hc).le_size
  rcases h.apart.forall hb hc hne with h | h <;> omega

theorem eq_of_addr (h : Tracks layout lo hi t mem bs) (hb : b ∈ bs) (hc : c ∈ bs)
    (he : b.addr = c.addr) : b = c := by
  by_contra hne
  have := h.apart_header hb hc hne
  have := layout.size_pos
  omega

/-- A pointer to the first block leads to a block. -/
theorem head_mem (h : Tracks layout lo hi t mem bs) (hhead : t.inUseList ≠ 0) :
    ∃ b ∈ bs, b.addr = t.inUseList :=
  List.mem_map.mp (h.lists.head_mem.resolve_left hhead)

theorem size_toNat (h : Tracks layout lo hi t mem bs) (hb : b ∈ bs) :
    (mem.field layout .allocSize b.addr).toNat = b.size := by
  have hw := h.within b hb
  have := hw.stop_le
  have := h.hi_le
  have := hw.le
  have := h.lo_pos
  rw [h.size_eq b hb, BitVec.toNat_ofNat, Nat.mod_eq_of_lt (by omega)]

/-- A block is intact if its two signatures are there. -/
theorem intact_iff (h : Tracks layout lo hi t mem bs) (hb : b ∈ bs) :
    mem.Intact layout b.addr ↔
      mem.field layout .startSig b.addr = memStartSig ∧ mem (b.addr + b.size - 4) = memEndSig := by
  rw [Memory.Intact, h.size_toNat hb]

/-- **Whatever is written, the list stands if the links and the sizes are spared.** -/
theorem write (h : Tracks layout lo hi t mem bs) (ha : ∀ b ∈ bs, ¬ b.Link layout a) :
    Tracks layout lo hi t (Function.update mem a v) bs where
  lo_pos := h.lo_pos
  hi_le := h.hi_le
  within := h.within
  apart := h.apart
  lists := by
    refine h.lists.congr rfl (fun p hp ↦ ?_) fun p hp ↦ ?_ <;>
      obtain ⟨b, hb, rfl⟩ := List.mem_map.mp hp
    · have hne := fun he ↦ ha b hb (Or.inr (Or.inl (Eq.symm he)))
      exact congrArg BitVec.toNat (Function.update_of_ne hne _ _)
    · have hne := fun he ↦ ha b hb (Or.inr (Or.inr (Eq.symm he)))
      exact congrArg BitVec.toNat (Function.update_of_ne hne _ _)
  size_eq b hb := by
    rw [← h.size_eq b hb]
    exact Function.update_of_ne (fun he ↦ ha b hb (Or.inl he.symm)) _ _

end Tracks

/-! ## A new block -/

/-- The new block can be taken: it lies in the heap, and apart from the blocks in use. -/
structure Fresh (layout : Layout) (lo hi : ℕ) (bs : List MemBlock) (b : MemBlock) : Prop where
  within : b.Within layout lo hi
  apart : ∀ c ∈ bs, b.Apart c

theorem Fresh.apart_header (hb : Fresh layout lo hi bs b) (h : Tracks layout lo hi t mem bs)
    (hc : c ∈ bs) :
    b.addr + layout.size ≤ c.addr ∨ c.addr + layout.size ≤ b.addr := by
  have := hb.within.le_size
  have := (h.within c hc).le_size
  rcases hb.apart c hc with h | h <;> omega

/-- The header of the new block. -/
theorem field_store_new (h : Tracks layout lo hi t mem bs) (hb : Fresh layout lo hi bs b) :
    ((t.store layout mem b.addr b.size).2.field layout f b.addr =
      match f with
      | .allocId => t.allocCnt
      | .allocSize => BitVec.ofNat 32 b.size
      | .prevBlk => BitVec.ofNat 32 t.inUseList
      | .nextBlk => 0
      | .startSig => memStartSig) := by
  have hsize := hb.within.le_size
  have hmod := hb.within.size_mod
  rw [Tracking.store]
  dsimp only
  rw [field_update (by omega)]
  have hhead : t.inUseList ≠ 0 → t.inUseList + layout.size ≤ b.addr ∨
      b.addr + layout.size ≤ t.inUseList := fun hne ↦ by
    obtain ⟨c, hc, hca⟩ := h.head_mem hne
    exact hca ▸ (hb.apart_header h hc).symm
  rw [apply_ite (fun mem ↦ Memory.field layout mem f b.addr)]
  have hif : ∀ mem' : Memory, (if t.inUseList ≠ 0 then
      (mem'.setField layout .nextBlk t.inUseList (BitVec.ofNat 32 b.addr)).field layout f b.addr
      else mem'.field layout f b.addr) = mem'.field layout f b.addr := fun mem' ↦ by
    split
    · next hne => exact field_setField_of_apart (hhead hne)
    · rfl
  rw [hif]
  cases f <;> simp [field_setField_self, field_setField_of_ne]

/-- The headers of the other blocks, of which the first now has one after it. -/
theorem field_store_old (h : Tracks layout lo hi t mem bs) (hb : Fresh layout lo hi bs b)
    (hc : c ∈ bs) :
    (t.store layout mem b.addr b.size).2.field layout f c.addr =
      if f = .nextBlk ∧ t.inUseList = c.addr then BitVec.ofNat 32 b.addr
      else mem.field layout f c.addr := by
  have hap := hb.apart_header h hc
  have hsize := hb.within.le_size
  have hcsize := (h.within c hc).le_size
  rw [Tracking.store]
  dsimp only
  have hfoot : b.addr + 4 * (b.size / 4 - 1) < c.addr ∨
      c.addr + layout.size ≤ b.addr + 4 * (b.size / 4 - 1) := by
    rcases hb.apart c hc with h | h <;> omega
  rw [field_update hfoot]
  have hown : ∀ mem' : Memory, ∀ g v,
      (mem'.setField layout g b.addr v).field layout f c.addr = mem'.field layout f c.addr :=
    fun _ _ _ ↦ field_setField_of_apart hap
  by_cases hhead : t.inUseList = c.addr
  · rw [if_pos (hhead ▸ h.addr_pos hc), hhead]
    by_cases hf : f = .nextBlk
    · rw [hf, field_setField_self, if_pos ⟨rfl, rfl⟩]
    · rw [field_setField_of_ne hf, if_neg fun he ↦ hf he.1]
      simp only [hown]
  · rw [if_neg (show ¬ (f = .nextBlk ∧ t.inUseList = c.addr) from fun he ↦ hhead he.2)]
    split
    · next hne =>
      obtain ⟨d, hd, hda⟩ := h.head_mem hne
      rw [← hda, field_setField_of_apart (h.apart_header hd hc fun he ↦ hhead (hda ▸ he ▸ rfl))]
      simp only [hown]
    · simp only [hown]

theorem Tracks.head_lt (h : Tracks layout lo hi t mem bs) : t.inUseList < 2 ^ 32 := by
  by_cases hhead : t.inUseList = 0
  · omega
  · obtain ⟨b, hb, he⟩ := h.head_mem hhead
    exact he ▸ h.addr_lt hb

theorem Fresh.addr_lt (hb : Fresh layout lo hi bs b) (h : Tracks layout lo hi t mem bs) :
    b.addr < 2 ^ 32 := by
  have := hb.within.stop_le
  have := hb.within.le_size
  have := h.hi_le
  omega

/-- **A new block is put into the list.** -/
theorem Tracks.store (h : Tracks layout lo hi t mem bs) (hb : Fresh layout lo hi bs b) :
    Tracks layout lo hi (t.store layout mem b.addr b.size).1 (t.store layout mem b.addr b.size).2
      (b :: bs) where
  lo_pos := h.lo_pos
  hi_le := h.hi_le
  within c hc := by
    rcases List.mem_cons.mp hc with rfl | hc
    · exact hb.within
    · exact h.within c hc
  apart := List.pairwise_cons.mpr ⟨hb.apart, h.apart⟩
  lists := by
    have hne : ∀ c ∈ bs, c.addr ≠ b.addr := fun c hc he ↦ by
      have := hb.apart_header h hc
      have := layout.size_pos
      omega
    have hnew : b.addr ∉ bs.map MemBlock.addr := fun hm ↦ by
      obtain ⟨c, hc, he⟩ := List.mem_map.mp hm
      exact hne c hc he
    have hpos : b.addr ≠ 0 := by
      have := hb.within.le
      have := h.lo_pos
      omega
    have hhead : t.inUseList ≠ b.addr := by
      by_cases h0 : t.inUseList = 0
      · omega
      · obtain ⟨c, hc, he⟩ := h.head_mem h0
        exact he ▸ hne c hc
    refine (h.lists.push hnew hpos).congr rfl (fun p hp ↦ ?_) fun p hp ↦ ?_
    · change ((t.store layout mem b.addr b.size).2.field layout .prevBlk p).toNat = _
      rcases List.mem_cons.mp hp with rfl | hp
      · rw [field_store_new h hb, Links.prev_push_self]
        exact Nat.mod_eq_of_lt h.head_lt
      · obtain ⟨c, hc, rfl⟩ := List.mem_map.mp hp
        rw [field_store_old h hb hc, if_neg (by simp), Links.prev_push_of_ne (hne c hc)]
        rfl
    · change ((t.store layout mem b.addr b.size).2.field layout .nextBlk p).toNat = _
      rcases List.mem_cons.mp hp with rfl | hp
      · rw [field_store_new h hb, Links.next_push_self hhead]
        rfl
      · obtain ⟨c, hc, rfl⟩ := List.mem_map.mp hp
        rw [field_store_old h hb hc]
        by_cases hc' : t.inUseList = c.addr
        · rw [if_pos ⟨rfl, hc'⟩, ← hc', show t.inUseList = (t.links layout mem).head from rfl,
            Links.next_push_head (show t.inUseList ≠ 0 from hc' ▸ h.addr_pos hc)]
          exact Nat.mod_eq_of_lt (hb.addr_lt h)
        · rw [if_neg fun he ↦ hc' he.2, Links.next_push_of_ne (hne c hc) (Ne.symm hc')]
          rfl
  size_eq c hc := by
    rcases List.mem_cons.mp hc with rfl | hc
    · exact field_store_new h hb
    · rw [field_store_old h hb hc, if_neg (by simp), h.size_eq c hc]

/-- The words outside the new block are left as they are, except for a pointer. -/
theorem store_of_not_mem (hb : b.Within layout lo hi) (ha : a < b.addr ∨ b.addr + b.size ≤ a)
    (hn : t.inUseList ≠ 0 → a ≠ t.inUseList + 4 * layout.word .nextBlk) :
    (t.store layout mem b.addr b.size).2 a = mem a := by
  have hsize := hb.le_size
  have hout : ∀ f, a ≠ b.addr + 4 * layout.word f := fun f ↦ by
    have := layout.word_lt f
    omega
  have hfoot : a ≠ b.addr + 4 * (b.size / 4 - 1) := by omega
  rw [Tracking.store]
  dsimp only
  rw [Function.update_of_ne hfoot]
  split
  · next hne => simp only [Memory.setField, ne_eq, hn hne, hout, not_false_eq_true,
      Function.update_of_ne]
  · simp only [Memory.setField, ne_eq, hout, not_false_eq_true, Function.update_of_ne]

/-- The end signature of a block is in no header. -/
theorem footer_apart (h : Tracks layout lo hi t mem bs) (hb : b ∈ bs) (hc : c ∈ bs) :
    c.addr + c.size - 4 ≠ b.addr + 4 * layout.word f := by
  have := layout.word_lt f
  have hsb := (h.within b hb).le_size
  have hsc := (h.within c hc).le_size
  by_cases hbc : b = c
  · subst hbc
    omega
  · rcases h.apart.forall hb hc hbc with hap | hap <;> omega

/-- The new block has its signatures, and those of the others are not touched. -/
theorem intact_store (h : Tracks layout lo hi t mem bs) (hb : Fresh layout lo hi bs b)
    (hc : c ∈ b :: bs) :
    (t.store layout mem b.addr b.size).2.Intact layout c.addr ↔
      c = b ∨ mem.Intact layout c.addr := by
  have hsize := hb.within.le_size
  have hmod := hb.within.size_mod
  rw [(h.store hb).intact_iff hc]
  rcases List.mem_cons.mp hc with rfl | hc
  · simp only [true_or, iff_true]
    refine ⟨field_store_new h hb, ?_⟩
    rw [show c.addr + c.size - 4 = c.addr + 4 * (c.size / 4 - 1) by omega]
    exact Function.update_self _ _ _
  · have hne : c ≠ b := fun he ↦ by
      have := hb.apart_header h hc
      subst he
      have := layout.size_pos
      omega
    have hcsize := (h.within c hc).le_size
    have hhead : t.inUseList ≠ 0 → c.addr + c.size - 4 ≠ t.inUseList + 4 * layout.word .nextBlk :=
      fun h0 ↦ by
        obtain ⟨d, hd, hda⟩ := h.head_mem h0
        exact hda ▸ footer_apart h hd hc
    rw [field_store_old h hb hc, if_neg (by simp), store_of_not_mem hb.within ?_ hhead,
      h.intact_iff hc]
    · simp [hne]
    · rcases hb.apart c hc with hap | hap <;> omega

/-- What is behind the header of a block is in no header. -/
theorem not_link_of_payload (h : Tracks layout lo hi t mem bs) (hb : b ∈ bs)
    (ha : b.addr + layout.size ≤ a ∧ a < b.addr + b.size) :
    ∀ c ∈ bs, ¬ c.Link layout a := by
  have hne : ∀ c ∈ bs, ∀ f, a ≠ c.addr + 4 * layout.word f := fun c hc f he ↦ by
    have := layout.word_lt f
    have hsc := (h.within c hc).le_size
    by_cases hbc : b = c
    · subst hbc
      omega
    · rcases h.apart.forall hb hc hbc with hap | hap <;> omega
  rintro c hc (he | he | he) <;> exact hne c hc _ he

/-! ## A block that is freed -/

theorem Tracks.next_mem (h : Tracks layout lo hi t mem bs) (hb : b ∈ bs)
    (hn : mem.pointer layout .nextBlk b.addr ≠ 0) :
    ∃ c ∈ bs, c ≠ b ∧ c.addr = mem.pointer layout .nextBlk b.addr := by
  have hmem := List.mem_map_of_mem (f := MemBlock.addr) hb
  obtain ⟨c, hc, he⟩ := List.mem_map.mp ((h.lists.next_mem hmem).resolve_left hn)
  exact ⟨c, hc, fun hcb ↦ h.lists.next_ne hmem (hcb ▸ he.symm), he⟩

theorem Tracks.prev_mem (h : Tracks layout lo hi t mem bs) (hb : b ∈ bs)
    (hp : mem.pointer layout .prevBlk b.addr ≠ 0) :
    ∃ c ∈ bs, c ≠ b ∧ c.addr = mem.pointer layout .prevBlk b.addr := by
  have hmem := List.mem_map_of_mem (f := MemBlock.addr) hb
  obtain ⟨c, hc, he⟩ := List.mem_map.mp ((h.lists.prev_mem hmem).resolve_left hp)
  exact ⟨c, hc, fun hcb ↦ h.lists.prev_ne hmem (hcb ▸ he.symm), he⟩

/-- The memory when the block after `b` points to the one before. -/
theorem field_setPrev (h : Tracks layout lo hi t mem bs) (hb : b ∈ bs) (hc : c ∈ bs) :
    Memory.field layout (if mem.pointer layout .nextBlk b.addr ≠ 0 then
        mem.setField layout .prevBlk (mem.pointer layout .nextBlk b.addr) v
      else mem) f c.addr =
      if f = .prevBlk ∧ c.addr = mem.pointer layout .nextBlk b.addr then v
      else mem.field layout f c.addr := by
  by_cases hn : mem.pointer layout .nextBlk b.addr = 0
  · rw [if_neg (not_not.mpr hn), if_neg fun he ↦ h.addr_pos hc (he.2.trans hn)]
  · obtain ⟨d, hd, -, hda⟩ := h.next_mem hb hn
    rw [if_pos hn, ← hda]
    by_cases hcd : c = d
    · subst hcd
      by_cases hf : f = .prevBlk
      · rw [hf, field_setField_self, if_pos ⟨rfl, rfl⟩]
      · rw [field_setField_of_ne hf, if_neg fun he ↦ hf he.1]
    · rw [field_setField_of_apart (h.apart_header hd hc (Ne.symm hcd)),
        if_neg fun he ↦ hcd (h.eq_of_addr hc hd he.2)]

/-- The memory when the block before `b` points to the one after. -/
theorem field_setNext (h : Tracks layout lo hi t mem bs) (hb : b ∈ bs) (hc : c ∈ bs)
    (mem₁ : Memory) :
    Memory.field layout (if mem.pointer layout .prevBlk b.addr ≠ 0 then
        mem₁.setField layout .nextBlk (mem.pointer layout .prevBlk b.addr) v
      else mem₁) f c.addr =
      if f = .nextBlk ∧ c.addr = mem.pointer layout .prevBlk b.addr then v
      else mem₁.field layout f c.addr := by
  by_cases hp : mem.pointer layout .prevBlk b.addr = 0
  · rw [if_neg (not_not.mpr hp), if_neg fun he ↦ h.addr_pos hc (he.2.trans hp)]
  · obtain ⟨d, hd, -, hda⟩ := h.prev_mem hb hp
    rw [if_pos hp, ← hda]
    by_cases hcd : c = d
    · subst hcd
      by_cases hf : f = .nextBlk
      · rw [hf, field_setField_self, if_pos ⟨rfl, rfl⟩]
      · rw [field_setField_of_ne hf, if_neg fun he ↦ hf he.1]
    · rw [field_setField_of_apart (h.apart_header hd hc (Ne.symm hcd)),
        if_neg fun he ↦ hcd (h.eq_of_addr hc hd he.2)]

theorem next_ne_addr (h : Tracks layout lo hi t mem bs) (hb : b ∈ bs) :
    b.addr ≠ mem.pointer layout .nextBlk b.addr :=
  Ne.symm (h.lists.next_ne (List.mem_map_of_mem hb))

/-- The block itself still points to the block before. -/
theorem pointer_setPrev (h : Tracks layout lo hi t mem bs) (hb : b ∈ bs) :
    Memory.pointer layout (if mem.pointer layout .nextBlk b.addr ≠ 0 then
        mem.setField layout .prevBlk (mem.pointer layout .nextBlk b.addr) v
      else mem) .prevBlk b.addr = mem.pointer layout .prevBlk b.addr := by
  rw [Memory.pointer, field_setPrev h hb hb, if_neg fun he ↦ next_ne_addr h hb he.2]
  rfl

/-- The pointers of the block before and of the block after are turned to each other. -/
theorem field_drop (h : Tracks layout lo hi t mem bs) (hb : b ∈ bs) (hc : c ∈ bs) :
    (t.drop layout mem b.addr).2.1.field layout f c.addr =
      if f = .nextBlk ∧ c.addr = mem.pointer layout .prevBlk b.addr then
        mem.field layout .nextBlk b.addr
      else if f = .prevBlk ∧ c.addr = mem.pointer layout .nextBlk b.addr then
        mem.field layout .prevBlk b.addr
      else mem.field layout f c.addr := by
  rw [Tracking.drop]
  dsimp only
  have hnext : ∀ v,
      Memory.field layout
        (if mem.pointer layout .nextBlk b.addr ≠ 0 then
          mem.setField layout .prevBlk (mem.pointer layout .nextBlk b.addr) v else mem)
        .nextBlk b.addr = mem.field layout .nextBlk b.addr := fun v ↦ by
    rw [field_setPrev h hb hb, if_neg fun he ↦ next_ne_addr h hb he.2]
  rw [pointer_setPrev h hb, hnext, field_setNext h hb hc, field_setPrev h hb hc]

/-- The head of the list. -/
theorem inUseList_drop (h : Tracks layout lo hi t mem bs) (hb : b ∈ bs) :
    (t.drop layout mem b.addr).1.inUseList =
      if t.inUseList = b.addr then mem.pointer layout .prevBlk b.addr else t.inUseList := by
  have hfield := field_drop (f := .prevBlk) h hb hb
  rw [if_neg (by simp), if_neg fun he ↦ next_ne_addr h hb he.2] at hfield
  exact congrArg (fun v : BitVec 32 ↦ if t.inUseList = b.addr then v.toNat else t.inUseList) hfield

/-- **A block that is freed is taken out of the list.** -/
theorem Tracks.drop (h : Tracks layout lo hi t mem bs) (hb : b ∈ bs) :
    Tracks layout lo hi (t.drop layout mem b.addr).1 (t.drop layout mem b.addr).2.1
      (bs.erase b) where
  lo_pos := h.lo_pos
  hi_le := h.hi_le
  within c hc := h.within c (List.mem_of_mem_erase hc)
  apart := h.apart.sublist List.erase_sublist
  lists := by
    rw [Links.map_erase_of_inj fun c hc he ↦ h.eq_of_addr hc hb he]
    have hmem := List.mem_map_of_mem (f := MemBlock.addr) hb
    refine (h.lists.drop hmem).congr (inUseList_drop h hb) (fun p hp ↦ ?_) fun p hp ↦ ?_
    all_goals obtain ⟨c, hc, rfl⟩ := List.mem_map.mp (List.mem_of_mem_erase hp)
    · change ((t.drop layout mem b.addr).2.1.field layout .prevBlk c.addr).toNat = _
      rw [field_drop h hb hc, if_neg (by simp)]
      by_cases hn : c.addr = (t.links layout mem).next b.addr
      · rw [if_pos ⟨rfl, hn⟩, hn]
        have hne : (t.links layout mem).next b.addr ≠ 0 := hn ▸ h.addr_pos hc
        exact (Links.prev_drop_next hne).symm
      · rw [if_neg fun he ↦ hn he.2]
        exact (Links.prev_drop_of_ne hn).symm
    · change ((t.drop layout mem b.addr).2.1.field layout .nextBlk c.addr).toNat = _
      rw [field_drop h hb hc]
      by_cases hp : c.addr = (t.links layout mem).prev b.addr
      · rw [if_pos ⟨rfl, hp⟩, hp]
        have hne : (t.links layout mem).prev b.addr ≠ 0 := hp ▸ h.addr_pos hc
        exact (Links.next_drop_prev hne).symm
      · rw [if_neg fun he ↦ hp he.2, if_neg (by simp)]
        exact (Links.next_drop_of_ne hp).symm
  size_eq c hc := by
    have hc := List.mem_of_mem_erase hc
    rw [field_drop h hb hc, if_neg (by simp), if_neg (by simp), h.size_eq c hc]

/-- Only pointers of the other blocks are changed. -/
theorem drop_of_not_link (h : Tracks layout lo hi t mem bs) (hb : b ∈ bs)
    (ha : ∀ c ∈ bs, ¬ c.Link layout a) : (t.drop layout mem b.addr).2.1 a = mem a := by
  have hnext : mem.pointer layout .nextBlk b.addr ≠ 0 →
      a ≠ mem.pointer layout .nextBlk b.addr + 4 * layout.word .prevBlk := fun hn he ↦ by
    obtain ⟨c, hc, -, hca⟩ := h.next_mem hb hn
    exact ha c hc (Or.inr (Or.inl (hca ▸ he)))
  have hprev : mem.pointer layout .prevBlk b.addr ≠ 0 →
      a ≠ mem.pointer layout .prevBlk b.addr + 4 * layout.word .nextBlk := fun hp he ↦ by
    obtain ⟨c, hc, -, hca⟩ := h.prev_mem hb hp
    exact ha c hc (Or.inr (Or.inr (hca ▸ he)))
  rw [Tracking.drop]
  dsimp only
  rw [pointer_setPrev h hb]
  by_cases hn : mem.pointer layout .nextBlk b.addr = 0 <;>
    by_cases hp : mem.pointer layout .prevBlk b.addr = 0
  · rw [if_neg (not_not.mpr hp), if_neg (not_not.mpr hn)]
  · rw [if_pos hp, if_neg (not_not.mpr hn)]
    exact Function.update_of_ne (hprev hp) _ _
  · rw [if_neg (not_not.mpr hp), if_pos hn]
    exact Function.update_of_ne (hnext hn) _ _
  · rw [if_pos hp, if_pos hn]
    exact (Function.update_of_ne (hprev hp) _ _).trans (Function.update_of_ne (hnext hn) _ _)

/-- The signatures of the other blocks are not touched. -/
theorem intact_drop (h : Tracks layout lo hi t mem bs) (hb : b ∈ bs) (hc : c ∈ bs.erase b) :
    (t.drop layout mem b.addr).2.1.Intact layout c.addr ↔ mem.Intact layout c.addr := by
  have hc' := List.mem_of_mem_erase hc
  rw [(h.drop hb).intact_iff hc, h.intact_iff hc', field_drop h hb hc', if_neg (by simp),
    if_neg (by simp), drop_of_not_link h hb fun d hd hlink ↦ ?_]
  rcases hlink with he | he | he <;> exact footer_apart h hd hc' he

/-! ## The check -/

theorem corruptionCheck_chain (h : Tracks layout lo hi t mem bs) {l : List MemBlock} {fuel p : ℕ}
    (hl : ∀ b ∈ l, b ∈ bs) (hc : (t.links layout mem).Chain 0 a (l.map MemBlock.addr) p)
    (hfuel : l.length ≤ fuel) :
    t.corruptionCheck layout mem lo hi fuel p =
      match l.find? fun b ↦ ¬ mem.Intact layout b.addr with
      | none => some (true, [])
      | some b => some (false, t.badBlock layout b.addr) := by
  induction l generalizing a p fuel with
  | nil =>
    obtain rfl : p = 0 := hc
    cases fuel <;> simp [Tracking.corruptionCheck]
  | cons b l ih =>
    obtain ⟨rfl, -, hrest⟩ := hc
    have hb := hl b List.mem_cons_self
    have hw := h.within b hb
    have hrange : ¬ (b.addr < lo ∨ hi ≤ b.addr) := by
      have := hw.le
      have := hw.stop_le
      have := hw.le_size
      omega
    cases fuel with
    | zero => exact absurd hfuel (by simp)
    | succ fuel =>
      rw [Tracking.corruptionCheck, if_pos (h.addr_pos hb), if_neg hrange, List.find?_cons]
      by_cases hi : mem.Intact layout b.addr
      · rw [if_neg (not_not.mpr hi)]
        simp only [hi, not_true_eq_false, decide_false]
        exact ih (fun c hc ↦ hl c (List.mem_cons_of_mem _ hc)) hrest (Nat.le_of_succ_le_succ hfuel)
      · rw [if_pos hi]
        simp only [hi, not_false_eq_true, decide_true]

/-- **The check goes through the blocks in use, the newest first**, up to the first one whose
signatures are not intact; that one is reported. -/
theorem corruptionCheck_eq (h : Tracks layout lo hi t mem bs) :
    t.corruptionCheck layout mem lo hi bs.length t.inUseList =
      match bs.find? fun b ↦ ¬ mem.Intact layout b.addr with
      | none => some (true, [])
      | some b => some (false, t.badBlock layout b.addr) :=
  corruptionCheck_chain h (fun _ hb ↦ hb) h.lists.chain (Nat.le_refl _)

end Tracks

end Fx3
end Usb3FpgaCard
