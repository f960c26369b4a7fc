import Usb3FpgaCard.Channels.Records
import Usb3FpgaCard.Nios.JtagUart

/-!
# The program and the console

`main` of `hello_world_small.c` down to its accesses to the bus: `alt_putstr` and `printf` end in
the driver's `altera_avalon_jtag_uart_write`, which looks for space in the control register before
each byte (`ALTERA_AVALON_JTAG_UART_SMALL`, since the drivers are accessed directly and are the
reduced ones).  `Cpu` is the program between two accesses, and `console` the program, the port and
the host together; how long the CPU takes between two accesses, and when the host takes a byte, is
given from outside, and so is what the two PIO ports show.

Whatever these are, no byte is lost, repeated or overtaken (`Sound.account`), since between the look
at the control register and the write nobody else writes.
-/

set_option autoImplicit false

namespace Usb3FpgaCard
namespace Nios

open Clocked

/-! ## The program -/

/-- What is accessed. -/
inductive Access where
  /-- `IORD_ALTERA_AVALON_JTAG_UART_CONTROL`. -/
  | control
  /-- `IOWR_ALTERA_AVALON_JTAG_UART_DATA`. -/
  | data (c : BitVec 8)
  /-- `IORD_ALTERA_AVALON_PIO_DATA(STATE_IO_BASE)`. -/
  | stateIo
  /-- `IORD_ALTERA_AVALON_PIO_DATA(DATA_IO_BASE)`. -/
  | dataIo

/-- The characters of a string. -/
def bytes (s : List Char) : List (BitVec 8) := s.map fun c ↦ BitVec.ofNat 8 c.toNat

/-- What `%d` makes of a number. -/
def decimal (v : ℤ) : List Char :=
  if v < 0 then '-' :: Nat.toDigits 10 v.natAbs else Nat.toDigits 10 v.natAbs

/-- What `alt_putstr` writes first. -/
def greeting : List (BitVec 8) := bytes "Hello from Nios II!\n".toList

/-- What `printf("%d\n", …)` writes. -/
def line (v : ℤ) : List (BitVec 8) := bytes (decimal v ++ ['\n'])

/-- The program. -/
structure Cpu where
  /-- The number of cycles until the next access. -/
  idle : ℕ
  /-- What is between `ptr` and `end`. -/
  text : List (BitVec 8)
  /-- The control register has shown that there is space. -/
  space : Bool
  /-- `old_state`. -/
  oldState : BitVec 8
  /-- `new_state`. -/
  newState : BitVec 8
  /-- `new_state` was not `old_state`, and `DATA_IO` is not read yet. -/
  changed : Bool

namespace Cpu

variable (s : Cpu)

/-- What is accessed in this cycle. -/
def access : Option Access :=
  if s.idle ≠ 0 then none
  else match s.text with
    | c :: _ => some (if s.space then .data c else .control)
    | [] => some (if s.changed then .dataIo else .stateIo)

/-- What is accessed, and when. -/
inductive Accesses : Option Access → Prop where
  /-- Nothing is accessed, -/
  | idle : s.idle ≠ 0 → Accesses none
  /-- a look at the control register before each byte, -/
  | control : s.idle = 0 → s.text ≠ [] → s.space = false → Accesses (some .control)
  /-- the byte, -/
  | data (c : BitVec 8) (l : List (BitVec 8)) :
    s.idle = 0 → s.text = c :: l → s.space = true → Accesses (some (.data c))
  /-- and the ports when all is written. -/
  | stateIo : s.idle = 0 → s.text = [] → s.changed = false → Accesses (some .stateIo)
  | dataIo : s.idle = 0 → s.text = [] → s.changed = true → Accesses (some .dataIo)

theorem accesses : s.Accesses s.access := by
  by_cases hidle : s.idle = 0
  · rw [access, if_neg (not_not.mpr hidle)]
    split
    next c l htext =>
      split
      next hspace => exact .data c l hidle htext hspace
      next hspace =>
        exact .control hidle (htext ▸ List.cons_ne_nil c l) (Bool.eq_false_iff.mpr hspace)
    next htext =>
      split
      next hchanged => exact .dataIo hidle htext hchanged
      next hchanged => exact .stateIo hidle htext (Bool.eq_false_iff.mpr hchanged)
  · rw [access, if_pos hidle]
    exact .idle hidle

/-- A clock edge.  An access ends with `pause` and one more cycles without any. -/
def edge (waitrequest : Bool) (readdata stateIo dataIo : BitVec 32) (pause : ℕ) : Cpu :=
  let next := { s with idle := pause + 1 }
  match s.access with
  | none => { s with idle := s.idle - 1 }
  | some .control =>
    if waitrequest then s else { next with space := readdata &&& controlWspaceMsk != 0 }
  | some (.data _) =>
    if waitrequest then s else { next with text := s.text.tail, space := false }
  | some .stateIo =>
    let newState := stateIo.setWidth 8
    if newState ≠ s.oldState then { next with newState := newState, changed := true }
    else { next with newState := newState, oldState := newState }
  | some .dataIo =>
    -- `old_state` is set when the line is out, and not looked at before
    { next with text := line dataIo.toInt, oldState := s.newState, changed := false }

/-- Only what is read from the two ports changes the states. -/
structure Keeps (s s' : Cpu) : Prop where
  oldState : s'.oldState = s.oldState
  newState : s'.newState = s.newState
  changed : s'.changed = s.changed
  idle : s.idle ≤ s'.idle + 1
  text : s.text = [] → s'.text = []

theorem keeps_edge (hstate : s.access ≠ some .stateIo) (hdata : s.access ≠ some .dataIo)
    (waitrequest : Bool) (readdata stateIo dataIo : BitVec 32) (pause : ℕ) :
    s.Keeps (s.edge waitrequest readdata stateIo dataIo pause) := by
  have haccess := s.accesses
  rw [edge]
  generalize s.access = a at haccess hstate hdata
  cases haccess with
  | idle _ => exact ⟨rfl, rfl, rfl, by dsimp only; omega, id⟩
  | control hidle _ _ =>
    dsimp only
    split
    · exact ⟨rfl, rfl, rfl, Nat.le_succ _, id⟩
    · exact ⟨rfl, rfl, rfl, hidle ▸ Nat.zero_le _, id⟩
  | data c l hidle _ _ =>
    dsimp only
    split
    · exact ⟨rfl, rfl, rfl, Nat.le_succ _, id⟩
    · exact ⟨rfl, rfl, rfl, hidle ▸ Nat.zero_le _, fun h ↦ congrArg List.tail h⟩
  | stateIo _ _ _ => exact absurd rfl hstate
  | dataIo _ _ _ => exact absurd rfl hdata

/-- The start of `main`. -/
def start (boot : ℕ) : Cpu :=
  { idle := boot, text := greeting, space := false, oldState := 0, newState := 0, changed := false }

end Cpu

/-- The slave's pins.  They are held until `av_waitrequest` is low. -/
def pins : Option Access → Avalon
  | some .control =>
    { address := true, chipselect := true, readN := false, writeN := true, writedata := 0 }
  | some (.data c) =>
    { address := false, chipselect := true, readN := true, writeN := false
      writedata := c.signExtend 32 }
  | _ => { address := false, chipselect := false, readN := true, writeN := true, writedata := 0 }

/-! ## The program, the port and the host -/

/-- What happens outside in one cycle. -/
structure Cycle where
  /-- The JTAG link. -/
  jtag : Jtag
  /-- How long the CPU takes after an access that ends now. -/
  pause : ℕ
  /-- What `STATE_IO` shows. -/
  stateIo : BitVec 32
  /-- What `DATA_IO` shows. -/
  dataIo : BitVec 32

/-- All together. -/
structure Console where
  /-- The port. -/
  uart : Uart
  /-- The program. -/
  cpu : Cpu
  /-- What the host has been given. -/
  received : List (BitVec 8)

namespace Console

variable (s : Console) (i : Cycle)

/-- A clock edge.  `r_dat` is taken while `r_val` is high. -/
def edge : Console :=
  { uart := s.uart.edge (pins s.cpu.access) i.jtag
    cpu := s.cpu.edge s.uart.avWaitrequest s.uart.avReaddata i.stateIo i.dataIo i.pause
    received := s.received ++ if s.uart.rVal then [s.uart.wfifo.q] else [] }

/-- What the CPU has written: it was received, is on its way, or in the FIFO. -/
def written : List (BitVec 8) :=
  s.received ++ (if s.uart.rVal then [s.uart.wfifo.q] else []) ++ s.uart.wfifo.items

/-- What is to be printed in addition. -/
def line : List (BitVec 8) :=
  match s.cpu.access with
  | some .dataIo => Nios.line i.dataIo.toInt
  | _ => []

end Console

/-- The console, from the reset of the card. -/
def console (boot : ℕ) : Machine Console Cycle where
  reset := { uart := .reset, cpu := .start boot, received := [] }
  edge := .edge

/-! ## One cycle -/

section edge

variable {f : Scfifo} {s : Console} {i : Cycle} {c : BitVec 8}

/-- **A FIFO loses nothing**: what was in it is in it, or its output is valid. -/
theorem Scfifo.items_edge (f : Scfifo) (wrreq : Bool) (data : BitVec 8) (rEna : Bool) :
    (if rEna && !f.empty then [(f.edge wrreq data (rEna && !f.empty)).q] else []) ++
        (f.edge wrreq data (rEna && !f.empty)).items =
      f.items ++ if wrreq then [data] else [] := by
  obtain ⟨items, q⟩ := f
  cases rEna <;> cases items <;> simp [Scfifo.edge, Scfifo.empty]

theorem Scfifo.length_items_edge (f : Scfifo) (wrreq : Bool) (data : BitVec 8) (rdreq : Bool) :
    (f.edge wrreq data rdreq).items.length ≤ f.items.length + if wrreq then 1 else 0 := by
  rw [Scfifo.edge, List.length_append]
  refine Nat.add_le_add ?_ (by cases wrreq <;> exact Nat.le_refl _)
  split
  · rw [List.length_tail]
    exact Nat.sub_le _ _
  · exact Nat.le_refl _

theorem setWidth_signExtend (c : BitVec 8) : (c.signExtend 32).setWidth 8 = c := by
  ext j hj
  have hj' : j < 32 := Nat.lt_trans hj (by decide)
  rw [BitVec.getElem_setWidth, BitVec.getLsbD_signExtend, if_pos hj, decide_eq_true hj',
    Bool.true_and, BitVec.getLsbD_eq_getElem hj]

theorem length_items_edge (s : Console) (i : Cycle) :
    (s.edge i).uart.wfifo.items.length ≤
      s.uart.wfifo.items.length + if s.uart.fifoWr then 1 else 0 :=
  s.uart.wfifo.length_items_edge _ _ _

/-- **What has been written** in one more cycle. -/
theorem written_edge (s : Console) (i : Cycle) :
    (s.edge i).written = s.written ++
      if s.uart.fifoWr then [(pins s.cpu.access).writedata.setWidth 8] else [] := by
  have hitems := s.uart.wfifo.items_edge s.uart.fifoWr
    ((pins s.cpu.access).writedata.setWidth 8) i.jtag.rEna
  rw [Console.written, Console.written, List.append_assoc, List.append_assoc, ← hitems]
  rfl

/-! ## The invariant -/

/-- What holds in every cycle, `T` being all that was to be printed so far. -/
structure Sound (T : List (BitVec 8)) (s : Console) : Prop where
  /-- The data register is never read. -/
  read0 : s.uart.read0 = false
  /-- `av_waitrequest` is low in the second cycle of an access. -/
  port : s.uart.avWaitrequest = false → s.cpu.access = some .control ∨
    ∃ c, s.cpu.access = some (.data c)
  /-- `fifo_wr` is high in the second cycle of a write. -/
  wr : s.uart.fifoWr = true ↔
    s.uart.avWaitrequest = false ∧ ∃ c, s.cpu.access = some (.data c)
  /-- What the driver has seen is still so. -/
  space : s.cpu.space = true → s.uart.wfifo.items.length < Scfifo.numwords
  /-- The FIFO does not overflow. -/
  le : s.uart.wfifo.items.length ≤ Scfifo.numwords
  /-- All that was to be printed has been written, or will be. -/
  account : s.written ++ s.cpu.text = T

variable {T : List (BitVec 8)}

/-- If nothing is written to the FIFO, it only gets shorter. -/
theorem quiet (i : Cycle) (h : s.uart.fifoWr = false) :
    (s.edge i).uart.wfifo.items.length ≤ s.uart.wfifo.items.length ∧
      (s.edge i).written = s.written := by
  have hlength := length_items_edge s i
  have hwritten := written_edge s i
  rw [h, if_neg Bool.false_ne_true] at hlength hwritten
  exact ⟨hlength, hwritten.trans (List.append_nil _)⟩

/-- **A cycle in which the port is not accessed.** -/
theorem Sound.edge_of_pins (h : Sound T s) (i : Cycle)
    (hpins : (pins s.cpu.access).chipselect = false)
    (hspace : (s.edge i).cpu.space = s.cpu.space)
    (htext : (s.edge i).cpu.text = s.cpu.text ++ s.line i) :
    Sound (T ++ s.line i) (s.edge i) := by
  have hnot : ¬ (s.cpu.access = some .control ∨ ∃ c, s.cpu.access = some (.data c)) := by
    rintro (ha | ⟨c, ha⟩) <;>
    · rw [ha] at hpins
      exact Bool.noConfusion hpins
  have hwr : s.uart.fifoWr = false :=
    Bool.eq_false_iff.mpr fun hw ↦ hnot (.inr (h.wr.mp hw).2)
  have hwr' : (s.edge i).uart.fifoWr = false := by
    simp [Console.edge, Uart.edge, hpins]
  have hwait' : (s.edge i).uart.avWaitrequest = true := by
    simp [Console.edge, Uart.edge, hpins]
  obtain ⟨hlength, hwritten⟩ := quiet i hwr
  refine ⟨?_, fun hw ↦ ?_, iff_of_false ?_ fun hw ↦ ?_, fun hs ↦ ?_, hlength.trans h.le, ?_⟩
  · simp [Console.edge, Uart.edge, hpins]
  · exact absurd (hw.symm.trans hwait') Bool.false_ne_true
  · rw [hwr']
    exact Bool.false_ne_true
  · exact absurd (hw.1.symm.trans hwait') Bool.false_ne_true
  · exact Nat.lt_of_le_of_lt hlength (h.space (hspace ▸ hs))
  · rw [hwritten, htext, ← List.append_assoc, h.account]

/-- **A cycle of a look** at the control register. -/
theorem Sound.edge_of_control (h : Sound T s) (i : Cycle) (ha : s.cpu.access = some .control) :
    Sound T (s.edge i) := by
  have hwr : s.uart.fifoWr = false := by
    refine Bool.eq_false_iff.mpr fun hw ↦ ?_
    obtain ⟨-, c, hc⟩ := h.wr.mp hw
    exact Access.noConfusion (Option.some_inj.mp (ha.symm.trans hc))
  have hwr' : (s.edge i).uart.fifoWr = false := by
    simp [Console.edge, Uart.edge, ha, pins]
  have hread0 : (s.edge i).uart.read0 = false := by
    simp [Console.edge, Uart.edge, ha, pins]
  have hwait' : (s.edge i).uart.avWaitrequest = !s.uart.avWaitrequest := by
    simp [Console.edge, Uart.edge, ha, pins]
  obtain ⟨hlength, hwritten⟩ := quiet i hwr
  cases hwait : s.uart.avWaitrequest with
  | true =>
    have hcpu : (s.edge i).cpu = s.cpu := by
      simp [Console.edge, Cpu.edge, ha, hwait]
    refine ⟨hread0, fun _ ↦ .inl (hcpu ▸ ha), iff_of_false ?_ fun hw ↦ ?_, fun hs ↦ ?_,
      hlength.trans h.le, ?_⟩
    · rw [hwr']
      exact Bool.false_ne_true
    · obtain ⟨c, hc⟩ := hw.2
      rw [hcpu, ha] at hc
      exact Access.noConfusion (Option.some_inj.mp hc)
    · exact Nat.lt_of_le_of_lt hlength (h.space (hcpu ▸ hs))
    · rw [hwritten, hcpu, h.account]
  | false =>
    rw [hwait] at hwait'
    have hspace : (s.edge i).cpu.space = (s.uart.avReaddata &&& controlWspaceMsk != 0) := by
      simp [Console.edge, Cpu.edge, ha, hwait]
    have htext : (s.edge i).cpu.text = s.cpu.text := by
      simp [Console.edge, Cpu.edge, ha, hwait]
    refine ⟨hread0, fun hw ↦ ?_, iff_of_false ?_ fun hw ↦ ?_, fun hs ↦ ?_, hlength.trans h.le, ?_⟩
    · exact absurd (hw.symm.trans hwait') Bool.false_ne_true
    · rw [hwr']
      exact Bool.false_ne_true
    · exact absurd (hw.1.symm.trans hwait') Bool.false_ne_true
    · rw [hspace, bne_iff_ne, and_controlWspaceMsk h.read0 h.le] at hs
      exact Nat.lt_of_le_of_lt hlength hs
    · rw [hwritten, htext, h.account]

/-- **A cycle of a write.** -/
theorem Sound.edge_of_data (h : Sound T s) (i : Cycle) {c : BitVec 8} {l : List (BitVec 8)}
    (ha : s.cpu.access = some (.data c)) (htext : s.cpu.text = c :: l)
    (hspace : s.cpu.space = true) : Sound T (s.edge i) := by
  have hroom := h.space hspace
  have hread0 : (s.edge i).uart.read0 = false := by
    simp [Console.edge, Uart.edge, ha, pins]
  have hwait' : (s.edge i).uart.avWaitrequest = !s.uart.avWaitrequest := by
    simp [Console.edge, Uart.edge, ha, pins]
  have hwr' : (s.edge i).uart.fifoWr = s.uart.avWaitrequest := by
    have hfull : s.uart.wfifo.full = false := beq_eq_false_iff_ne.mpr (Nat.ne_of_lt hroom)
    simp [Console.edge, Uart.edge, ha, pins, hfull]
  cases hwait : s.uart.avWaitrequest with
  | true =>
    -- the first cycle: the byte is put into the FIFO in the next one
    have hwr : s.uart.fifoWr = false := by
      refine Bool.eq_false_iff.mpr fun hw ↦ ?_
      exact absurd (hwait.symm.trans (h.wr.mp hw).1) Bool.noConfusion
    have hcpu : (s.edge i).cpu = s.cpu := by
      simp [Console.edge, Cpu.edge, ha, hwait]
    rw [hwait] at hwait' hwr'
    obtain ⟨hlength, hwritten⟩ := quiet i hwr
    refine ⟨hread0, fun _ ↦ .inr ⟨c, hcpu ▸ ha⟩, iff_of_true hwr' ⟨hwait', c, hcpu ▸ ha⟩,
      fun _ ↦ Nat.lt_of_le_of_lt hlength hroom, hlength.trans h.le, ?_⟩
    rw [hwritten, hcpu, h.account]
  | false =>
    -- the second cycle
    have hwr : s.uart.fifoWr = true := h.wr.mpr ⟨hwait, c, ha⟩
    have hlength := length_items_edge s i
    have hwritten := written_edge s i
    have hdata : (pins s.cpu.access).writedata.setWidth 8 = c := by
      rw [ha]
      exact setWidth_signExtend c
    rw [hwr, if_pos rfl] at hlength
    rw [hwr, if_pos rfl, hdata] at hwritten
    have hspace' : (s.edge i).cpu.space = false := by
      simp [Console.edge, Cpu.edge, ha, hwait]
    have htext' : (s.edge i).cpu.text = l := by
      simp [Console.edge, Cpu.edge, ha, hwait, htext]
    rw [hwait] at hwait' hwr'
    refine ⟨hread0, fun hw ↦ ?_, iff_of_false ?_ fun hw ↦ ?_, fun hs ↦ ?_, ?_, ?_⟩
    · exact absurd (hw.symm.trans hwait') Bool.false_ne_true
    · rw [hwr']
      exact Bool.false_ne_true
    · exact absurd (hw.1.symm.trans hwait') Bool.false_ne_true
    · exact absurd (hspace'.symm.trans hs) Bool.false_ne_true
    · exact hlength.trans (Nat.succ_le_of_lt hroom)
    · rw [hwritten, htext', List.append_assoc, List.singleton_append, ← htext, h.account]

/-- **One cycle**, with what is to be printed in addition. -/
theorem Sound.edge (h : Sound T s) (i : Cycle) : Sound (T ++ s.line i) (s.edge i) := by
  have haccess := s.cpu.accesses
  generalize ha : s.cpu.access = a at haccess
  have hline : a ≠ some .dataIo → s.line i = [] := by
    intro hne
    rw [Console.line, ha]
    cases a with
    | none => rfl
    | some a => cases a <;> first | rfl | exact absurd rfl hne
  cases haccess with
  | idle _ =>
    refine h.edge_of_pins i ?_ ?_ ?_
    · rw [ha]
      rfl
    · simp [Console.edge, Cpu.edge, ha]
    · rw [hline nofun, List.append_nil]
      simp [Console.edge, Cpu.edge, ha]
  | control _ _ _ =>
    rw [hline nofun, List.append_nil]
    exact h.edge_of_control i ha
  | data c l _ htext hspace =>
    rw [hline nofun, List.append_nil]
    exact h.edge_of_data i ha htext hspace
  | stateIo _ htext _ =>
    have hcpu : (s.edge i).cpu.space = s.cpu.space ∧ (s.edge i).cpu.text = s.cpu.text := by
      rw [Console.edge, Cpu.edge, ha]
      dsimp only
      split <;> exact ⟨rfl, rfl⟩
    refine h.edge_of_pins i ?_ hcpu.1 ?_
    · rw [ha]
      rfl
    · rw [hline nofun, List.append_nil, hcpu.2]
  | dataIo _ htext _ =>
    refine h.edge_of_pins i ?_ ?_ ?_
    · rw [ha]
      rfl
    · simp [Console.edge, Cpu.edge, ha]
    · rw [htext, List.nil_append, Console.line, ha]
      simp [Console.edge, Cpu.edge, ha]

end edge

/-! ## A run -/

/-- What is to be printed in the first `t` cycles. -/
def output (boot : ℕ) (inp : ℕ → Cycle) (t : ℕ) : List (BitVec 8) :=
  greeting ++ (List.range t).flatMap fun u ↦ ((console boot).run inp u).line (inp u)

theorem output_succ (boot : ℕ) (inp : ℕ → Cycle) (t : ℕ) :
    output boot inp (t + 1) = output boot inp t ++ ((console boot).run inp t).line (inp t) := by
  rw [output, List.range_succ, List.flatMap_append, ← List.append_assoc, List.flatMap_singleton]
  rfl

/-- **In every cycle**, whatever happens outside. -/
theorem sound (boot : ℕ) (inp : ℕ → Cycle) (t : ℕ) :
    Sound (output boot inp t) ((console boot).run inp t) := by
  induction t with
  | zero =>
    refine ⟨rfl, fun hw ↦ absurd hw.symm Bool.false_ne_true, iff_of_false Bool.false_ne_true ?_, ?_,
      Nat.zero_le _, rfl⟩
    · exact fun hw ↦ absurd hw.1.symm Bool.false_ne_true
    · exact fun hs ↦ absurd hs Bool.false_ne_true
  | succ t ih =>
    rw [output_succ, Machine.run_succ]
    exact ih.edge (inp t)

end Nios
end Usb3FpgaCard
