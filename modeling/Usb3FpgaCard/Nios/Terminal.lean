import Usb3FpgaCard.Nios.Console
import Usb3FpgaCard.Nios.Polling

/-!
# What a reader of the console learns

The program polls `update_ctr_flag` while it also has to wait for the console, so when it polls
depends on when the host reads.  Still each run of the card is a run of the loop of `Nios.Polling`
for some times of the passes (`exists_passed`), and since the console loses nothing, the numbers a
reader has seen are the first of those printed.  Every second of them is about a wait, after the one
that the first pass prints if it sees the flag high, since the flag was taken to be low before; the
others are read when the flag falls.

A reader who does not read stops the loop: what has been printed, but for the last line, is never
ahead of him by more than the FIFO and the byte on its way to the host.
-/

set_option autoImplicit false

namespace Usb3FpgaCard
namespace Nios

open Clocked Fpga Channels

/-! ## Reading numbers -/

/-- The characters of bytes. -/
def chars (bs : List (BitVec 8)) : List Char := bs.map fun b ↦ Char.ofNat b.toNat

/-- The number that is written in a line. -/
def ofDecimal : List Char → ℤ
  | '-' :: s => -Nat.ofDigitChars 10 s 0
  | s => Nat.ofDigitChars 10 s 0

/-- The numbers in the lines after the greeting. -/
def numbers (received : List (BitVec 8)) : List ℤ :=
  ((records 10#8 received).drop 1).map fun l ↦ ofDecimal (chars l)

theorem mem_toDigits {c : Char} {n : ℕ} (h : c ∈ Nat.toDigits 10 n) :
    48 ≤ c.toNat ∧ c.toNat ≤ 57 := by
  have hdigit := Nat.isDigit_of_mem_toDigits (by decide) (by decide) h
  simp only [Char.isDigit, Bool.and_eq_true, decide_eq_true_eq] at hdigit
  exact hdigit

theorem mem_decimal {c : Char} {v : ℤ} (h : c ∈ decimal v) : 45 ≤ c.toNat ∧ c.toNat ≤ 57 := by
  rw [decimal] at h
  split at h
  · rcases List.mem_cons.mp h with rfl | h
    · decide
    · exact (mem_toDigits h).imp_left (by omega)
  · exact (mem_toDigits h).imp_left (by omega)

theorem ofDecimal_decimal (v : ℤ) : ofDecimal (decimal v) = v := by
  rw [decimal]
  split
  case isTrue h =>
    show -(Nat.ofDigitChars 10 (Nat.toDigits 10 v.natAbs) 0 : ℤ) = v
    rw [Nat.ofDigitChars_ten_toDigits]
    omega
  case isFalse h =>
    have hdigits : ofDecimal (Nat.toDigits 10 v.natAbs) =
        Nat.ofDigitChars 10 (Nat.toDigits 10 v.natAbs) 0 := by
      rw [ofDecimal.eq_def]
      split
      next s hs =>
        have hminus := mem_toDigits (hs ▸ List.mem_cons_self : '-' ∈ Nat.toDigits 10 v.natAbs)
        exact absurd hminus.1 (by decide)
      next => rfl
    rw [hdigits, Nat.ofDigitChars_ten_toDigits]
    omega

/-- Characters come back. -/
theorem chars_bytes {s : List Char} (h : ∀ c ∈ s, c.toNat < 256) : chars (bytes s) = s := by
  rw [chars, bytes, List.map_map]
  refine (List.map_congr_left fun c hc ↦ ?_).trans (List.map_id s)
  show Char.ofNat (BitVec.ofNat 8 c.toNat).toNat = c
  rw [BitVec.toNat_ofNat, Nat.mod_eq_of_lt (h c hc), Char.ofNat_toNat]

/-- No line contains a line feed. -/
theorem lineFeed_not_mem {s : List Char} (h : ∀ c ∈ s, 32 ≤ c.toNat ∧ c.toNat < 256) :
    10#8 ∉ bytes s := by
  intro hmem
  obtain ⟨c, hc, heq⟩ := List.mem_map.mp hmem
  obtain ⟨hle, hlt⟩ := h c hc
  have hnat := congrArg BitVec.toNat heq
  rw [BitVec.toNat_ofNat, Nat.mod_eq_of_lt hlt] at hnat
  exact absurd (hnat ▸ hle) (by decide)

theorem line_eq (v : ℤ) : line v = bytes (decimal v) ++ [10#8] := List.map_append

/-- What is printed for some numbers, with the greeting before them. -/
def printout (l : List ℤ) : List (BitVec 8) := greeting ++ l.flatMap line

theorem printout_concat (l : List ℤ) (v : ℤ) : printout (l ++ [v]) = printout l ++ line v := by
  rw [printout, List.flatMap_append, List.flatMap_singleton, ← List.append_assoc, printout]

/-- **The numbers come back** from what is printed. -/
theorem numbers_printout (l : List ℤ) : numbers (printout l) = l := by
  have hgreeting : greeting = bytes "Hello from Nios II!".toList ++ [10#8] := by decide
  have hchars : ∀ c ∈ "Hello from Nios II!".toList, 32 ≤ c.toNat ∧ c.toNat < 256 := by simp
  have hlines : l.flatMap line = l.flatMap fun v ↦ bytes (decimal v) ++ [10#8] :=
    List.flatMap_congr fun v _ ↦ line_eq v
  have hfeed : ∀ v ∈ l, 10#8 ∉ bytes (decimal v) := fun v _ ↦
    lineFeed_not_mem fun c hc ↦ by
      have := mem_decimal hc
      omega
  rw [numbers, printout, hgreeting, hlines, List.append_assoc, List.singleton_append,
    records_append (lineFeed_not_mem hchars), records_flatMap hfeed, List.drop_succ_cons,
    List.drop_zero, List.map_map]
  refine (List.map_congr_left fun v _ ↦ ?_).trans (List.map_id l)
  show ofDecimal (chars (bytes (decimal v))) = v
  rw [chars_bytes fun c hc ↦ Nat.lt_of_le_of_lt (mem_decimal hc).2 (by decide), ofDecimal_decimal]

/-- What a reader has seen are the first of them. -/
theorem prefix_numbers {received : List (BitVec 8)} {l : List ℤ}
    (h : received <+: printout l) : numbers received <+: l := by
  have hrecords := prefix_records 10#8 h
  have hnumbers := (hrecords.drop 1).map fun x ↦ ofDecimal (chars x)
  rwa [← numbers, ← numbers, numbers_printout] at hnumbers

/-! ## Times of the passes -/

namespace Polls

variable {p : Polls} {m a d k : ℕ}

/-- The first `m` passes as before, pass `m` at these times, and others later. -/
def resume (p : Polls) (m a d : ℕ) (hpos : 0 < a) (had : a < d) (hp : ∀ k < m, p.data k < a) :
    Polls where
  state k := if k < m then p.state k else if k = m then a else d + 2 * (k - m) - 1
  data k := if k < m then p.data k else d + 2 * (k - m)
  pos := by
    split
    · exact p.pos
    · split <;> omega
  state_lt k := by
    have := p.state_lt k
    split
    · exact this
    · split <;> omega
  data_lt k := by
    have hk := p.data_lt k
    have hm := hp k
    split <;> split <;> first | omega | (split <;> omega)

variable (hpos : 0 < a) (had : a < d) (hp : ∀ k < m, p.data k < a)

theorem state_resume_of_lt (h : k < m) : (p.resume m a d hpos had hp).state k = p.state k :=
  if_pos h

theorem data_resume_of_lt (h : k < m) : (p.resume m a d hpos had hp).data k = p.data k :=
  if_pos h

theorem state_resume_self : (p.resume m a d hpos had hp).state m = a :=
  (if_neg (Nat.lt_irrefl m)).trans (if_pos rfl)

theorem data_resume_self : (p.resume m a d hpos had hp).data m = d := by
  show (if m < m then p.data m else d + 2 * (m - m)) = d
  rw [if_neg (Nat.lt_irrefl m), Nat.sub_self, Nat.mul_zero, Nat.add_zero]

theorem exists_state_resume {c : ℕ} :
    (∃ k < m, (p.resume m a d hpos had hp).state k = c) ↔ ∃ k < m, p.state k = c :=
  exists_congr fun _ ↦ and_congr_right fun hk ↦ by rw [state_resume_of_lt hpos had hp hk]

theorem exists_state_resume_succ {c : ℕ} :
    (∃ k < m + 1, (p.resume m a d hpos had hp).state k = c) ↔
      (∃ k < m, p.state k = c) ∨ a = c := by
  simp only [Nat.lt_succ_iff_lt_or_eq, or_and_right, exists_or, exists_eq_left,
    state_resume_self, exists_state_resume]

/-- The first passes go as before. -/
theorem loop_resume (inp : ℕ → Pins) (h : k ≤ m) :
    loop inp (p.resume m a d hpos had hp) k = loop inp p k := by
  induction k with
  | zero => rfl
  | succ k ih =>
    rw [loop, loop, ih (Nat.le_of_succ_le h), state_resume_of_lt hpos had hp h,
      data_resume_of_lt hpos had hp h]

end Polls

/-! ## The card -/

/-- What happens outside the FPGA. -/
structure Surroundings where
  /-- The number of cycles until the program makes its first access. -/
  boot : ℕ
  /-- The JTAG link. -/
  jtag : ℕ → Jtag
  /-- How long the CPU takes between two accesses. -/
  pause : ℕ → ℕ

section card

variable (inp : ℕ → Pins) (e : Surroundings)

/-- What happens outside the console: the two ports show `update_ctr_flag` and `wait_ctr`. -/
def outside (t : ℕ) : Cycle :=
  { jtag := e.jtag t, pause := e.pause t, stateIo := stateIo inp t, dataIo := dataIo inp t }

/-- The console in cycle `t`. -/
def card (t : ℕ) : Console := (console e.boot).run (outside inp e) t

/-- The card has made `m` passes at the times of `p`, and perhaps begun the next. -/
structure Passed (p : Polls) (m t : ℕ) : Prop where
  past : ∀ k < m, p.state k < t
  done : ∀ k < m, p.data k < t + (card inp e t).cpu.idle
  state : ∀ c < t, (card inp e c).cpu.access = some .stateIo ↔
    (∃ k < m, p.state k = c) ∨ ((card inp e t).cpu.changed = true ∧ p.state m = c)
  data : ∀ c < t, (card inp e c).cpu.access = some .dataIo → ∃ k < m, p.data k = c
  oldState : (card inp e t).cpu.oldState = (loop inp p m).oldState
  output : output e.boot (outside inp e) t = printout ((loop inp p m).printed.map Line.value)
  begun : (card inp e t).cpu.changed = true → (card inp e t).cpu.text = [] ∧ p.state m < t ∧
    (card inp e t).cpu.newState = (stateIo inp (p.state m)).setWidth 8 ∧
    (card inp e t).cpu.newState ≠ (card inp e t).cpu.oldState
  ahead : (printout ((loop inp p m).printed.dropLast.map Line.value)).length ≤
    (card inp e t).received.length + (Scfifo.numwords + 1)

end card

variable {inp : ℕ → Pins} {e : Surroundings} {p : Polls} {m t : ℕ}

theorem card_succ (inp : ℕ → Pins) (e : Surroundings) (t : ℕ) :
    card inp e (t + 1) = (card inp e t).edge (outside inp e t) := rfl

/-- More is received in time. -/
theorem received_succ (inp : ℕ → Pins) (e : Surroundings) (t : ℕ) :
    (card inp e t).received.length ≤ (card inp e (t + 1)).received.length := by
  rw [card_succ, Console.edge, List.length_append]
  exact Nat.le_add_right _ _

/-- **A cycle in which no port is read.** -/
theorem Passed.keep (h : Passed inp e p m t) (hstate : (card inp e t).cpu.access ≠ some .stateIo)
    (hdata : (card inp e t).cpu.access ≠ some .dataIo) : Passed inp e p m (t + 1) := by
  have hkeeps : (card inp e t).cpu.Keeps (card inp e (t + 1)).cpu :=
    Cpu.keeps_edge _ hstate hdata _ _ _ _ _
  have hline : (card inp e t).line (outside inp e t) = [] := by
    rw [Console.line]
    split
    · next ha => exact absurd ha hdata
    · rfl
  refine ⟨fun k hk ↦ Nat.lt_succ_of_lt (h.past k hk), fun k hk ↦ ?_, fun c hc ↦ ?_, fun c hc ↦ ?_,
    hkeeps.oldState.trans h.oldState, ?_, fun hc ↦ ?_, h.ahead.trans ?_⟩
  · have hdone := h.done k hk
    have hidle := hkeeps.idle
    omega
  · rw [hkeeps.changed]
    rcases Nat.lt_succ_iff_lt_or_eq.mp hc with hc | rfl
    · exact h.state c hc
    · refine iff_of_false hstate ?_
      rintro (⟨k, hk, heq⟩ | ⟨hchanged, heq⟩)
      · exact absurd heq (Nat.ne_of_lt (h.past k hk))
      · exact absurd heq (Nat.ne_of_lt (h.begun hchanged).2.1)
  · rcases Nat.lt_succ_iff_lt_or_eq.mp hc with hc | rfl
    · exact h.data c hc
    · exact fun ha ↦ absurd ha hdata
  · rw [output_succ, h.output]
    exact (congrArg _ hline).trans (List.append_nil _)
  · obtain ⟨htext, hlt, hnew, hne⟩ := h.begun (hkeeps.changed ▸ hc)
    rw [hkeeps.newState, hkeeps.oldState]
    exact ⟨hkeeps.text htext, Nat.lt_succ_of_lt hlt, hnew, hne⟩
  · exact Nat.add_le_add_right (received_succ inp e t) _

/-- No port is read in cycle 0. -/
theorem pos_of_text (h : (card inp e t).cpu.text = []) : 0 < t := by
  cases t with
  | zero =>
    have hgreeting : greeting ≠ [] := by decide
    exact absurd h hgreeting
  | succ t => exact Nat.succ_pos t

/-- When `STATE_IO` is read, all passes are over. -/
theorem Passed.at_poll (h : Passed inp e p m t)
    (ha : (card inp e t).cpu.access = some .stateIo) :
    0 < t ∧ (∀ k < m, p.data k < t) ∧ (card inp e t).cpu.text = [] ∧
      (card inp e t).cpu.changed = false ∧ (card inp e t).line (outside inp e t) = [] := by
  have haccess := (card inp e t).cpu.accesses
  rw [ha] at haccess
  cases haccess with
  | stateIo hidle htext hchanged =>
    refine ⟨pos_of_text htext, fun k hk ↦ ?_, htext, hchanged, ?_⟩
    · have hdone := h.done k hk
      rwa [hidle] at hdone
    · rw [Console.line, ha]

section poll

variable (hpos : 0 < t) (hp : ∀ k < m, p.data k < t)

/-- The program when `STATE_IO` is read. -/
theorem cpu_of_poll (ha : (card inp e t).cpu.access = some .stateIo) :
    (card inp e (t + 1)).cpu =
      if (stateIo inp t).setWidth 8 ≠ (card inp e t).cpu.oldState then
        { (card inp e t).cpu with
          idle := e.pause t + 1, newState := (stateIo inp t).setWidth 8, changed := true }
      else
        { (card inp e t).cpu with
          idle := e.pause t + 1, newState := (stateIo inp t).setWidth 8
          oldState := (stateIo inp t).setWidth 8 } := by
  rw [card_succ, Console.edge]
  dsimp only
  rw [Cpu.edge, ha]
  rfl

/-- No pass but the last has read `DATA_IO` until then. -/
theorem Passed.data_of_poll (h : Passed inp e p m t)
    (ha : (card inp e t).cpu.access = some .stateIo) {c : ℕ} (hc : c < t + 1)
    (hac : (card inp e c).cpu.access = some .dataIo) :
    ∃ k < m, (p.resume m t (t + 1) hpos (Nat.lt_succ_self t) hp).data k = c := by
  rcases Nat.lt_succ_iff_lt_or_eq.mp hc with hc | rfl
  · obtain ⟨k, hk, heq⟩ := h.data c hc hac
    exact ⟨k, hk, (Polls.data_resume_of_lt hpos _ hp hk).trans heq⟩
  · exact absurd (ha.symm.trans hac) (by simp)

/-- A pass begins. -/
theorem Passed.state_of_poll (h : Passed inp e p m t)
    (ha : (card inp e t).cpu.access = some .stateIo) {c : ℕ} (hc : c < t + 1) :
    (card inp e c).cpu.access = some .stateIo ↔ (∃ k < m, p.state k = c) ∨ t = c := by
  have hchanged := (h.at_poll ha).2.2.2.1
  rcases Nat.lt_succ_iff_lt_or_eq.mp hc with hc | rfl
  · rw [h.state c hc, hchanged]
    exact or_congr_right (iff_of_false (fun hf ↦ Bool.false_ne_true hf.1) (Nat.ne_of_gt hc))
  · exact iff_of_true ha (.inr rfl)

/-- **A pass that prints nothing.** -/
theorem Passed.poll_same (h : Passed inp e p m t)
    (ha : (card inp e t).cpu.access = some .stateIo)
    (heq : (stateIo inp t).setWidth 8 = (card inp e t).cpu.oldState) :
    Passed inp e (p.resume m t (t + 1) hpos (Nat.lt_succ_self t) hp) (m + 1) (t + 1) := by
  obtain ⟨-, -, htext, hchanged, hline⟩ := h.at_poll ha
  have hcpu := cpu_of_poll ha
  rw [if_neg (not_not.mpr heq)] at hcpu
  have hself := Polls.state_resume_self hpos (Nat.lt_succ_self t) hp
  have hpass : loop inp (p.resume m t (t + 1) hpos (Nat.lt_succ_self t) hp) (m + 1) =
      { loop inp p m with oldState := (stateIo inp t).setWidth 8 } := by
    rw [loop, Polls.loop_resume hpos _ hp inp (Nat.le_refl m), hself, Loop.pass,
      if_neg (not_not.mpr (heq.trans h.oldState))]
  refine ⟨fun k hk ↦ ?_, fun k hk ↦ ?_, fun c hc ↦ ?_, fun c hc hac ↦ ?_, ?_, ?_, fun hc ↦ ?_, ?_⟩
  · rcases Nat.lt_succ_iff_lt_or_eq.mp hk with hk | rfl
    · rw [Polls.state_resume_of_lt hpos _ hp hk]
      exact Nat.lt_succ_of_lt (h.past k hk)
    · rw [hself]
      exact Nat.lt_succ_self t
  · rw [hcpu]
    rcases Nat.lt_succ_iff_lt_or_eq.mp hk with hk | rfl
    · rw [Polls.data_resume_of_lt hpos _ hp hk]
      exact Nat.lt_add_right _ (Nat.lt_succ_of_lt (hp k hk))
    · rw [Polls.data_resume_self]
      exact Nat.lt_add_of_pos_right (Nat.succ_pos _)
  · rw [h.state_of_poll ha hc, Polls.exists_state_resume_succ, hcpu, hchanged]
    exact (or_iff_left fun hf ↦ Bool.false_ne_true hf.1).symm
  · obtain ⟨k, hk, hd⟩ := h.data_of_poll hpos hp ha hc hac
    exact ⟨k, Nat.lt_succ_of_lt hk, hd⟩
  · rw [hcpu, hpass]
  · rw [output_succ, h.output, hpass]
    exact (congrArg _ hline).trans (List.append_nil _)
  · rw [hcpu, hchanged] at hc
    exact absurd hc Bool.false_ne_true
  · rw [hpass]
    exact h.ahead.trans (Nat.add_le_add_right (received_succ inp e t) _)

/-- **A pass that begins to print.** -/
theorem Passed.poll_changed (h : Passed inp e p m t)
    (ha : (card inp e t).cpu.access = some .stateIo)
    (hne : (stateIo inp t).setWidth 8 ≠ (card inp e t).cpu.oldState) :
    Passed inp e (p.resume m t (t + 1) hpos (Nat.lt_succ_self t) hp) m (t + 1) := by
  obtain ⟨-, -, htext, hchanged, hline⟩ := h.at_poll ha
  have hcpu := cpu_of_poll ha
  rw [if_pos hne] at hcpu
  have hself := Polls.state_resume_self hpos (Nat.lt_succ_self t) hp
  have hloop := Polls.loop_resume hpos (Nat.lt_succ_self t) hp inp (Nat.le_refl m)
  refine ⟨fun k hk ↦ ?_, fun k hk ↦ ?_, fun c hc ↦ ?_, fun c hc hac ↦ ?_, ?_, ?_, fun hc ↦ ?_, ?_⟩
  · rw [Polls.state_resume_of_lt hpos _ hp hk]
    exact Nat.lt_succ_of_lt (h.past k hk)
  · rw [Polls.data_resume_of_lt hpos _ hp hk]
    exact Nat.lt_add_right _ (Nat.lt_succ_of_lt (hp k hk))
  · rw [h.state_of_poll ha hc, Polls.exists_state_resume, hcpu, hself]
    exact or_congr_right (and_iff_right rfl).symm
  · exact h.data_of_poll hpos hp ha hc hac
  · rw [hcpu, hloop, h.oldState]
  · rw [output_succ, h.output, hloop]
    exact (congrArg _ hline).trans (List.append_nil _)
  · rw [hcpu, hself]
    exact ⟨htext, Nat.lt_succ_self t, rfl, hne⟩
  · rw [hloop]
    exact h.ahead.trans (Nat.add_le_add_right (received_succ inp e t) _)

end poll

section finish

variable (hpos : 0 < p.state m) (hlt : p.state m < t) (hp : ∀ k < m, p.data k < p.state m)

/-- When the CPU has nothing to write, all is in the FIFO or with the host, but for a byte on its
way. -/
theorem Passed.length_of_text (h : Passed inp e p m t) (htext : (card inp e t).cpu.text = []) :
    (printout ((loop inp p m).printed.map Line.value)).length ≤
      (card inp e t).received.length + (Scfifo.numwords + 1) := by
  have hsound : Sound (Nios.output e.boot (outside inp e) t) (card inp e t) :=
    sound e.boot (outside inp e) t
  have haccount := congrArg List.length hsound.account
  have hfifo := hsound.le
  have hvalid : (if (card inp e t).uart.rVal then [(card inp e t).uart.wfifo.q]
      else []).length ≤ 1 := by
    split <;> simp
  rw [htext, List.append_nil, Console.written, h.output, List.length_append,
    List.length_append] at haccount
  omega

/-- **A pass that prints** reads `DATA_IO`. -/
theorem Passed.finish (h : Passed inp e p m t) (ha : (card inp e t).cpu.access = some .dataIo) :
    Passed inp e (p.resume m (p.state m) t hpos hlt hp) (m + 1) (t + 1) := by
  have haccess := (card inp e t).cpu.accesses
  rw [ha] at haccess
  obtain ⟨htext, hchanged⟩ : (card inp e t).cpu.text = [] ∧
      (card inp e t).cpu.changed = true := by
    cases haccess with
    | dataIo _ h1 h2 => exact ⟨h1, h2⟩
  obtain ⟨-, -, hnew, hne⟩ := h.begun hchanged
  have hcpu : (card inp e (t + 1)).cpu = { (card inp e t).cpu with
      idle := e.pause t + 1, text := line (dataIo inp t).toInt
      oldState := (card inp e t).cpu.newState, changed := false } := by
    rw [card_succ, Console.edge]
    dsimp only
    rw [Cpu.edge, ha]
    rfl
  have hself := Polls.state_resume_self hpos hlt hp
  have hpass : loop inp (p.resume m (p.state m) t hpos hlt hp) (m + 1) =
      { oldState := (card inp e t).cpu.newState
        printed := (loop inp p m).printed ++ [⟨m, (loop inp p m).oldState,
          (card inp e t).cpu.newState, (dataIo inp t).toInt⟩] } := by
    rw [loop, Polls.loop_resume hpos hlt hp inp (Nat.le_refl m), hself, Polls.data_resume_self,
      Loop.pass, ← hnew, if_pos (h.oldState ▸ hne)]
  refine ⟨fun k hk ↦ ?_, fun k hk ↦ ?_, fun c hc ↦ ?_, fun c hc hac ↦ ?_, ?_, ?_, fun hc ↦ ?_, ?_⟩
  · rcases Nat.lt_succ_iff_lt_or_eq.mp hk with hk | rfl
    · rw [Polls.state_resume_of_lt hpos hlt hp hk]
      exact Nat.lt_succ_of_lt (h.past k hk)
    · rw [hself]
      exact Nat.lt_succ_of_lt hlt
  · refine Nat.lt_add_right _ (Nat.lt_succ_of_le ?_)
    rcases Nat.lt_succ_iff_lt_or_eq.mp hk with hk | rfl
    · rw [Polls.data_resume_of_lt hpos hlt hp hk]
      exact Nat.le_of_lt ((hp k hk).trans hlt)
    · rw [Polls.data_resume_self]
  · rw [Polls.exists_state_resume_succ, hcpu]
    refine Iff.trans ?_ (or_iff_left fun hf ↦ Bool.false_ne_true hf.1).symm
    rcases Nat.lt_succ_iff_lt_or_eq.mp hc with hc | rfl
    · rw [h.state c hc, and_iff_right hchanged]
    · refine iff_of_false (fun hac ↦ absurd (ha.symm.trans hac) (by simp)) ?_
      rintro (⟨k, hk, heq⟩ | heq)
      · exact absurd heq (Nat.ne_of_lt (h.past k hk))
      · exact absurd heq (Nat.ne_of_lt hlt)
  · rcases Nat.lt_succ_iff_lt_or_eq.mp hc with hc | rfl
    · obtain ⟨k, hk, heq⟩ := h.data c hc hac
      exact ⟨k, Nat.lt_succ_of_lt hk, (Polls.data_resume_of_lt hpos hlt hp hk).trans heq⟩
    · exact ⟨m, Nat.lt_succ_self m, Polls.data_resume_self hpos hlt hp⟩
  · rw [hcpu, hpass]
  · have hline : (card inp e t).line (outside inp e t) = line (dataIo inp t).toInt := by
      rw [Console.line, ha]
      rfl
    rw [output_succ, h.output, hpass, List.map_append, List.map_singleton, printout_concat]
    exact congrArg _ hline
  · rw [hcpu] at hc
    exact absurd hc Bool.false_ne_true
  · rw [hpass, List.dropLast_concat]
    exact (h.length_of_text htext).trans (Nat.add_le_add_right (received_succ inp e t) _)

end finish

/-- **A run of the card is a run of the loop**, for some times of the passes. -/
theorem exists_passed (inp : ℕ → Pins) (e : Surroundings) (t : ℕ) :
    ∃ p m, Passed inp e p m t := by
  induction t with
  | zero =>
    have hnone : ∀ {P : ℕ → Prop}, ∀ k < 0, P k := fun k hk ↦ absurd hk (Nat.not_lt_zero k)
    refine ⟨slow, 0, hnone, hnone, hnone, hnone, rfl, ?_, fun hc ↦ ?_, ?_⟩
    · exact (List.append_nil greeting).symm
    · exact absurd hc Bool.false_ne_true
    · have hgreeting : (printout []).length ≤ Scfifo.numwords + 1 := by decide
      exact hgreeting.trans (Nat.le_add_left _ _)
  | succ t ih =>
    obtain ⟨p, m, h⟩ := ih
    by_cases hstate : (card inp e t).cpu.access = some .stateIo
    · obtain ⟨hpos, hp, -⟩ := h.at_poll hstate
      by_cases heq : (stateIo inp t).setWidth 8 = (card inp e t).cpu.oldState
      · exact ⟨_, _, h.poll_same hpos hp hstate heq⟩
      · exact ⟨_, _, h.poll_changed hpos hp hstate heq⟩
    by_cases hdata : (card inp e t).cpu.access = some .dataIo
    · have hlt : p.state m < t := by
        have haccess := (card inp e t).cpu.accesses
        rw [hdata] at haccess
        cases haccess with
        | dataIo _ _ hchanged => exact (h.begun hchanged).2.1
      have hp : ∀ k < m, p.data k < p.state m := fun k hk ↦
        Nat.lt_of_lt_of_le (p.data_lt k) (state_mono hk)
      have hpos : 0 < p.state m := Nat.lt_of_le_of_lt (Nat.zero_le m) (p.lt_state m)
      exact ⟨_, _, h.finish hpos hlt hp hdata⟩
    · exact ⟨p, m, h.keep hstate hdata⟩

/-! ## Every second number -/

/-- What the first pass prints. -/
def first (inp : ℕ → Pins) (p : Polls) : List ℤ :=
  if (regs inp (p.state 0)).updateCtrFlag then [(dataIo inp (p.data 0)).toInt] else []

/-- **Every second number** was printed because the flag has risen. -/
theorem everySecond_printed (inp : ℕ → Pins) (p : Polls) (m : ℕ) :
    everySecond ((loop inp p (m + 1)).printed.map Line.value) =
        first inp p ++ reported inp p (m + 1) ∧
      ((loop inp p (m + 1)).printed.length % 2 = 0 ↔
        (regs inp (p.state m)).updateCtrFlag = false) := by
  induction m with
  | zero =>
    rw [reported_one, first, printed_succ, oldState_loop, loop]
    cases (regs inp (p.state 0)).updateCtrFlag <;> exact ⟨rfl, by simp⟩
  | succ m ih =>
    obtain ⟨hsecond, hlength⟩ := ih
    rw [reported_succ, printed_succ, oldState_loop (m + 1), oldState_loop m]
    cases hlow : (regs inp (p.state m)).updateCtrFlag <;>
      cases hhigh : (regs inp (p.state (m + 1))).updateCtrFlag <;> rw [hlow] at hlength
    · simpa [hsecond] using hlength
    · -- the flag has risen, and the numbers before this one are even in number
      have heven : (loop inp p (m + 1)).printed.length % 2 = 0 := hlength.mpr rfl
      rw [if_pos (by decide), List.map_append, List.map_singleton, everySecond_concat,
        List.length_map, if_pos heven, hsecond, List.length_append, List.length_singleton,
        if_pos (And.intro rfl rfl), List.append_assoc]
      exact ⟨rfl, iff_of_false (by omega) Bool.noConfusion⟩
    · have hodd : ¬ (loop inp p (m + 1)).printed.length % 2 = 0 :=
        fun h ↦ Bool.noConfusion (hlength.mp h)
      rw [if_pos (by decide), List.map_append, List.map_singleton, everySecond_concat,
        List.length_map, if_neg hodd, hsecond, List.length_append, List.length_singleton,
        if_neg fun h ↦ Bool.noConfusion h.1, List.append_nil]
      exact ⟨rfl, iff_of_true (by omega) rfl⟩
    · simpa [hsecond] using hlength

/-! ## The reader -/

section reader

variable (inp : ℕ → Pins) (e : Surroundings)

/-- What a reader of the console has learnt by cycle `t`. -/
structure Readout (p : Polls) (m t : ℕ) : Prop where
  /-- The passes are those that the card has made. -/
  state : ∀ c < t, (card inp e c).cpu.access = some .stateIo ↔ ∃ k < m, p.state k = c
  data : ∀ c < t, (card inp e c).cpu.access = some .dataIo → ∃ k < m, p.data k = c
  /-- The numbers are the first of those printed. -/
  numbers : numbers (card inp e t).received <+: (loop inp p m).printed.map Line.value
  /-- Every second of them, after that of the first pass, is about a wait that was noticed: one
  number for each, in order, and the right one if it is read in time. -/
  waits : ∃ n, List.Forall₂ (fun x v ↦ ReadInTime inp p x → v = shown x.2)
    (((waits inp p (m - 1)).filter (Noticed inp p)).take n)
    ((everySecond (Nios.numbers (card inp e t).received)).drop (first inp p).length)
  /-- The loop does not run ahead of the reader: of all that has been printed before the last line,
  no more bytes are still to come than the FIFO holds, and one that is on its way. -/
  ahead : (printout ((loop inp p m).printed.dropLast.map Line.value)).length ≤
    (card inp e t).received.length + (Scfifo.numwords + 1)

end reader

/-- The card has been given what the loop has printed, as far as it has been received. -/
theorem prefix_received (h : Passed inp e p m t) :
    (card inp e t).received <+: printout ((loop inp p m).printed.map Line.value) := by
  have hsound : Sound (output e.boot (outside inp e) t) (card inp e t) :=
    sound e.boot (outside inp e) t
  rw [← h.output, ← hsound.account, Console.written, List.append_assoc, List.append_assoc]
  exact List.prefix_append _ _

/-- What is read in the numbers of the first passes. -/
theorem waits_of_numbers {l : List ℤ} (h : l <+: (loop inp p m).printed.map Line.value) :
    ∃ n, List.Forall₂ (fun x v ↦ ReadInTime inp p x → v = shown x.2)
      (((waits inp p (m - 1)).filter (Noticed inp p)).take n)
      ((everySecond l).drop (first inp p).length) := by
  cases m with
  | zero =>
    obtain rfl : l = [] := List.prefix_nil.mp h
    refine ⟨0, ?_⟩
    rw [List.take_zero, everySecond, List.drop_nil]
    exact .nil
  | succ m =>
    have hsecond := (prefix_everySecond h).drop (first inp p).length
    rw [(everySecond_printed inp p m).1, List.drop_left] at hsecond
    obtain ⟨n, hn⟩ : ∃ n, (everySecond l).drop (first inp p).length =
        (reported inp p (m + 1)).take n := ⟨_, List.prefix_iff_eq_take.mp hsecond⟩
    refine ⟨n, ?_⟩
    rw [hn]
    exact List.forall₂_take n (forall₂_reported m)

/-- **What a reader of the console learns**, whenever the host reads and however slow the program
is. -/
theorem readout (inp : ℕ → Pins) (e : Surroundings) (t : ℕ) : ∃ p m, Readout inp e p m t := by
  obtain ⟨p, m, h⟩ := exists_passed inp e t
  have hnumbers := prefix_numbers (prefix_received h)
  cases hchanged : (card inp e t).cpu.changed with
  | false =>
    refine ⟨p, m, fun c hc ↦ ?_, h.data, hnumbers, waits_of_numbers hnumbers, h.ahead⟩
    rw [h.state c hc, hchanged]
    exact or_iff_left fun hf ↦ Bool.false_ne_true hf.1
  | true =>
    -- the pass that has begun to print is the last
    have hprinted : (loop inp p m).printed <+: (loop inp p (m + 1)).printed ∧
        (printout ((loop inp p (m + 1)).printed.dropLast.map Line.value)).length ≤
          (card inp e t).received.length + (Scfifo.numwords + 1) := by
      rw [printed_succ]
      split
      · rw [List.dropLast_concat]
        exact ⟨List.prefix_append _ _, h.length_of_text (h.begun hchanged).1⟩
      · exact ⟨List.prefix_refl _, h.ahead⟩
    have hnext := hnumbers.trans (hprinted.1.map Line.value)
    refine ⟨p, m + 1, fun c hc ↦ ?_, fun c hc hac ↦ ?_, hnext, waits_of_numbers hnext, hprinted.2⟩
    · rw [h.state c hc, hchanged, and_iff_right rfl]
      simp only [Nat.lt_succ_iff_lt_or_eq, or_and_right, exists_or, exists_eq_left]
    · obtain ⟨k, hk, heq⟩ := h.data c hc hac
      exact ⟨k, Nat.lt_succ_of_lt hk, heq⟩

end Nios
end Usb3FpgaCard
