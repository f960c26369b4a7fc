import Usb3FpgaCard.Fpga.Parser

/-!
# The configuration, field by field

`packets_to_send`, `ch_src[0]`, …, `ch_src[7]` and `USER_LED` are the fields a command sets, each
carried by one of its words.  `Field.SetBy` says which words of a burst the parser takes for the
one that carries a field.  In a burst of up to 2^32 words that is the word itself, in a command;
in a longer one `packet_index` starts over, and so does the search for a header.

So the value of a field after `n` words of a burst is what the last of them that sets it says, or
what it was before (`Parser.get_after_of_lastSet` and `Parser.get_after_of_not_setBy`).
-/

set_option autoImplicit false

namespace Usb3FpgaCard
namespace Fpga

open Clocked

/-! ## Fields -/

/-- The fields a command sets. -/
inductive Field where
  | packetsToSend
  | chSrc (k : Fin 8)
  | userLed
  deriving DecidableEq

namespace Field

/-- The word of a command that carries the field. -/
def index : Field → ℕ
  | packetsToSend => 1
  | chSrc k => if k.val < 4 then 2 else 3
  | userLed => 4

/-- The number of bits in the field. -/
@[reducible] def width : Field → ℕ
  | packetsToSend => 32
  | chSrc _ => 8
  | userLed => 4

/-- What a word says about the field. -/
def ofWord (x : BitVec 32) : (f : Field) → BitVec f.width
  | packetsToSend => x
  | chSrc k => if k.val < 4 then byteOf x k.val else byteOf x (k.val - 4)
  | userLed => ~~~(x.extractLsb' 0 4)

theorem index_pos (f : Field) : 0 < f.index := by
  cases f with
  | packetsToSend => decide
  | chSrc k => revert k; decide
  | userLed => decide

theorem index_lt (f : Field) : f.index < 5 := by
  cases f with
  | packetsToSend => decide
  | chSrc k => revert k; decide
  | userLed => decide

/-- Word `n` of a burst is taken for the word that carries the field: a header has come, and
`packet_index` is the number of that word. -/
def SetBy (f : Field) (w : ℕ → BitVec 32) (n : ℕ) : Prop :=
  Parser.HeaderBefore w n ∧ n % 2 ^ 32 = f.index

instance (f : Field) (w : ℕ → BitVec 32) (n : ℕ) : Decidable (f.SetBy w n) :=
  inferInstanceAs (Decidable (_ ∧ _))

variable {f : Field} {w : ℕ → BitVec 32} {n i : ℕ}

/-- Before `packet_index` starts over, a field is set by its own word of a command alone. -/
theorem setBy_iff_of_le (hn : n ≤ 2 ^ 32) : f.SetBy w n ↔ w 0 = Regs.header ∧ n = f.index := by
  have hpos := f.index_pos
  have hlt := f.index_lt
  rw [SetBy, Parser.headerBefore_iff_of_le hn]
  constructor
  · rintro ⟨⟨h1, h0⟩, hmod⟩
    exact ⟨h0, by omega⟩
  · rintro ⟨h0, rfl⟩
    exact ⟨⟨hpos, h0⟩, by omega⟩

/-- Word `i` is the last of the first `n` words that sets the field. -/
structure LastSet (f : Field) (w : ℕ → BitVec 32) (n i : ℕ) : Prop where
  /-- It is one of them. -/
  lt : i < n
  /-- It sets the field. -/
  setBy : f.SetBy w i
  /-- The words after it do not. -/
  last : ∀ k, i < k → k < n → ¬ f.SetBy w k

theorem exists_lastSet (f : Field) (w : ℕ → BitVec 32) (n : ℕ) :
    (∃ i, f.LastSet w n i) ∨ ∀ i, i < n → ¬ f.SetBy w i := by
  induction n with
  | zero => exact .inr fun i hi ↦ absurd hi (Nat.not_lt_zero i)
  | succ n ih =>
    by_cases hn : f.SetBy w n
    · exact .inl ⟨n, Nat.lt_succ_self n, hn, fun k h1 h2 ↦ by omega⟩
    · have hlast : ∀ k, k < n + 1 → (k < n → ¬ f.SetBy w k) → ¬ f.SetBy w k := fun k hk h ↦ by
        rcases Nat.lt_succ_iff_lt_or_eq.mp hk with hlt | rfl
        · exact h hlt
        · exact hn
      rcases ih with ⟨i, hi⟩ | hno
      · exact .inl ⟨i, Nat.lt_succ_of_lt hi.lt, hi.setBy, fun k h1 h2 ↦ hlast k h2 (hi.last k h1)⟩
      · exact .inr fun k hk ↦ hlast k hk (hno k)

end Field

/-! ## What sets them -/

/-- The value of a field. -/
def Config.get (c : Config) : (f : Field) → BitVec f.width
  | .packetsToSend => c.packetsToSend
  | .chSrc k => c.chSrc k
  | .userLed => c.userLed

/-- One word sets the fields it carries. -/
theorem Config.get_load (c : Config) (n : ℕ) (x : BitVec 32) (f : Field) :
    (c.load (BitVec.ofNat 32 n) x).get f =
      if n % 2 ^ 32 = f.index then f.ofWord x else c.get f := by
  have hmod : BitVec.ofNat 32 n = BitVec.ofNat 32 (n % 2 ^ 32) :=
    BitVec.eq_of_toNat_eq (by rw [BitVec.toNat_ofNat, BitVec.toNat_ofNat, Nat.mod_mod])
  have hn : n % 2 ^ 32 < 2 ^ 32 := Nat.mod_lt n (by omega)
  rw [hmod]
  generalize n % 2 ^ 32 = m at hn ⊢
  have hpos := f.index_pos
  have hlt := f.index_lt
  by_cases h : m = 0 ∨ 4 < m
  · rw [Config.load_other c x hn h, if_neg (by omega)]
  obtain rfl | rfl | rfl | rfl : m = 1 ∨ m = 2 ∨ m = 3 ∨ m = 4 := by omega
  all_goals
    cases f with
    | packetsToSend => rfl
    | chSrc k =>
      rw [Field.index, Field.ofWord]
      by_cases hk : k.val < 4 <;>
        simp [get, hk, Config.load_one, Config.load_two, Config.load_three, Config.load_four]
    | userLed => rfl

section after

variable {c : Config} {w : ℕ → BitVec 32} {n i : ℕ} {f : Field}

/-- **What the next word does**, be it read or the 0 the parser takes when there is none. -/
theorem Parser.get_parse_after (c : Config) (w : ℕ → BitVec 32) (n : ℕ) (x : BitVec 32)
    (f : Field) :
    ((Parser.after c w n).parse x).get f =
      if f.SetBy w n then f.ofWord x else (Parser.after c w n).config.get f := by
  rw [Parser.parse, Parser.after_index]
  by_cases h : Parser.HeaderBefore w n
  · rw [if_pos (Parser.after_valid_iff.mpr h), Config.get_load]
    simp only [Field.SetBy, h, true_and]
  · rw [if_neg fun hv ↦ h (Parser.after_valid_iff.mp hv), if_neg fun hs ↦ h hs.1]

theorem Parser.get_after_succ :
    (Parser.after c w (n + 1)).config.get f =
      if f.SetBy w n then f.ofWord (w n) else (Parser.after c w n).config.get f :=
  Parser.get_parse_after c w n (w n) f

theorem Parser.get_idle_after :
    (Parser.after c w n).idle.config.get f =
      if f.SetBy w n then f.ofWord 0 else (Parser.after c w n).config.get f :=
  Parser.get_parse_after c w n 0 f

/-- A burst leaves the fields alone that none of its words sets. -/
theorem Parser.get_after_of_not_setBy (h : ∀ i, i < n → ¬ f.SetBy w i) :
    (Parser.after c w n).config.get f = c.get f := by
  refine eq_of_stable (f := fun i ↦ (Parser.after c w i).config.get f) (Nat.zero_le n)
    fun i _ hi ↦ ?_
  rw [Parser.get_after_succ, if_neg (h i hi)]

/-- **The last word that sets a field counts.** -/
theorem Parser.get_after_of_lastSet (h : f.LastSet w n i) :
    (Parser.after c w n).config.get f = f.ofWord (w i) := by
  have hset : (Parser.after c w (i + 1)).config.get f = f.ofWord (w i) := by
    rw [Parser.get_after_succ, if_pos h.setBy]
  rw [← hset]
  refine eq_of_stable (f := fun i ↦ (Parser.after c w i).config.get f) h.lt fun k h1 h2 ↦ ?_
  rw [Parser.get_after_succ, if_neg (h.last k h1 h2)]

end after

end Fpga
end Usb3FpgaCard
