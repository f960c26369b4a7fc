import Usb3FpgaCard.History.Turns
import Usb3FpgaCard.Host.Queue

/-!
# The order of the calls in `send_and_read_bulk`

`Allowed` says when each call may be made: a slot has to have its event before it is used, it gets a
transfer only when it has none, and it is waited for and finished only when it has one.
`Scheduled` is the invariant, over the log.

If the initial submissions are accepted, the loop keeps to this whatever else happens, and submits
all buffers in order (`schedule`).  So in particular every submission is finished once, also one
that was rejected.  If one of the initial submissions is rejected the loop is skipped, and then
nothing is finished, not even what was accepted.  `settled_iff` says what follows for the memory
that is freed at the end.
-/

set_option autoImplicit false

namespace Usb3FpgaCard
namespace Host

open History

/-! ## Calls on a slot -/

/-- The call submits a transfer on the slot. -/
def Call.beginsOn (slot : ℕ) : Call → Bool
  | .beginDataXfer r _ => r.slot == slot
  | _ => false

/-- The call finishes the transfer of the slot. -/
def Call.finishesOn (slot : ℕ) : Call → Bool
  | .finishDataXfer r => r.slot == slot
  | _ => false

/-- A transfer has been submitted on the slot and not finished since. -/
def SlotBusy (slot : ℕ) (log : List Call) : Prop :=
  Busy (Call.beginsOn slot) (Call.finishesOn slot) log

/-- When a call may be made, for `T` transfers. -/
def Allowed (T : ℕ) (log : List Call) : Call → Prop
  | .newBuffer i => i < T
  | .createEvent slot => slot < queueSize
  | .beginDataXfer r _ =>
    r.buffer < T ∧ r.slot < queueSize ∧ .createEvent r.slot ∈ log ∧ ¬ SlotBusy r.slot log ∧
      (begun log).length < (finishedWith log).length + queueSize
  | .waitForXfer slot | .waitForSingleObject slot =>
    slot < queueSize ∧ .createEvent slot ∈ log ∧ SlotBusy slot log
  | .finishDataXfer r =>
    r.buffer < T ∧ r.slot < queueSize ∧ .createEvent r.slot ∈ log ∧ SlotBusy r.slot log
  | .closeHandle slot =>
    slot < queueSize ∧ .createEvent slot ∈ log ∧ ∀ slot, ¬ SlotBusy slot log
  | .deleteBuffer i => i < T ∧ ∀ slot, ¬ SlotBusy slot log
  | .deleteOvLap => ∀ slot, ¬ SlotBusy slot log
  | .xferData _ | .abort | .deleteInBuf | .deleteInContext => True

/-- What each call of `BeginDataXfer` in a log has reported. -/
def acceptedIn (log : List Call) : List Bool :=
  log.filterMap fun
    | .beginDataXfer _ accepted => some accepted
    | _ => none

theorem acceptedIn_append (l l' : List Call) :
    acceptedIn (l ++ l') = acceptedIn l ++ acceptedIn l' :=
  List.filterMap_append

theorem mem_acceptedIn {log : List Call} {r : Resources} {accepted : Bool}
    (h : .beginDataXfer r accepted ∈ log) : accepted ∈ acceptedIn log :=
  List.mem_filterMap.mpr ⟨_, h, rfl⟩

theorem exists_of_mem_acceptedIn {log : List Call} {accepted : Bool}
    (h : accepted ∈ acceptedIn log) : ∃ r, .beginDataXfer r accepted ∈ log := by
  obtain ⟨c, hc, heq⟩ := List.mem_filterMap.mp h
  cases c <;> cases heq
  exact ⟨_, hc⟩

/-! ## The invariant -/

/-- The log when `k` of `T` transfers have been finished and `m` submitted. -/
structure Scheduled (o : Outcomes) (T k m : ℕ) (log : List Call) : Prop where
  /-- Every call was allowed. -/
  allowed : Always (Allowed T) log
  /-- The busy slots are those of the transfers that are pending. -/
  busy : ∀ slot, SlotBusy slot log ↔ ∃ j, k ≤ j ∧ j < m ∧ j % queueSize = slot
  /-- The slots used so far have their events. -/
  event : ∀ slot, slot < min queueSize m → .createEvent slot ∈ log
  /-- The submissions in the log have their outcomes. -/
  accepted : acceptedIn log = (List.range m).map o.accepted

section scheduled

variable {o : Outcomes} {T k m : ℕ} {log : List Call}

/-- The calls that neither submit nor finish a transfer. -/
def Call.Neither (c : Call) : Prop := ∀ slot, c.beginsOn slot = false ∧ c.finishesOn slot = false

theorem acceptedIn_of_neither {l : List Call} (h : ∀ c ∈ l, c.Neither) : acceptedIn l = [] := by
  refine List.filterMap_eq_nil_iff.mpr fun c hc ↦ ?_
  cases c with
  | beginDataXfer r accepted => exact absurd (h _ hc r.slot).1 (by simp [Call.beginsOn])
  | _ => rfl

/-- The slot of transfer `j` has been used. -/
theorem slot_lt {j : ℕ} (hj : j < m) : j % queueSize < min queueSize m :=
  Nat.lt_min.mpr ⟨Nat.mod_lt j (by decide), Nat.lt_of_le_of_lt (Nat.mod_le j _) hj⟩

theorem Scheduled.call (h : Scheduled o T k m log) {c : Call} (hc : c.Neither)
    (hallowed : Allowed T log c) : Scheduled o T k m (log ++ [c]) where
  allowed := always_concat.mpr ⟨h.allowed, hallowed⟩
  busy slot := (busy_concat_of_neither (hc slot).1 (hc slot).2).trans (h.busy slot)
  event slot hslot := List.mem_append_left _ (h.event slot hslot)
  accepted := by
    rw [acceptedIn_append, acceptedIn_of_neither (List.forall_mem_singleton.mpr hc),
      List.append_nil, h.accepted]

/-- Some calls that are allowed as long as the log agrees with this one on the slots. -/
theorem Scheduled.calls (h : Scheduled o T k m log) (l : List Call) (hl : ∀ c ∈ l, c.Neither)
    (hallowed : ∀ c ∈ l, ∀ log, Scheduled o T k m log → Allowed T log c) :
    Scheduled o T k m (log ++ l) := by
  induction l generalizing log with
  | nil => rwa [List.append_nil]
  | cons c l ih =>
    obtain ⟨hc, hl'⟩ := List.forall_mem_cons.mp hl
    obtain ⟨hac, hallowed'⟩ := List.forall_mem_cons.mp hallowed
    rw [show log ++ c :: l = (log ++ [c]) ++ l by rw [List.append_assoc]; rfl]
    exact ih (h.call hc (hac log h)) hl' hallowed'

/-- No slot is busy with another transfer when one is submitted. -/
theorem Scheduled.not_busy (h : Scheduled o T k m log) (hm : m < k + queueSize) :
    ¬ SlotBusy (m % queueSize) log := by
  rw [h.busy]
  rintro ⟨j, hk, hj, hslot⟩
  exact slot_ne hk hj hm hslot

/-- **Submitting** transfer `m`. -/
theorem Scheduled.begin (h : Scheduled o T k m log) (hk : k ≤ m) (hm : m < k + queueSize)
    (hT : m < T) (hcount : (begun log).length < (finishedWith log).length + queueSize)
    (hevent : .createEvent (m % queueSize) ∈ log) :
    Scheduled o T k (m + 1)
      (log ++ [.beginDataXfer ⟨m, m % queueSize, o.context m⟩ (o.accepted m)]) where
  allowed := always_concat.mpr
    ⟨h.allowed, hT, Nat.mod_lt m (by decide), hevent, h.not_busy hm, hcount⟩
  busy slot := by
    rw [SlotBusy, busy_concat]
    show (m % queueSize == slot) = true ∨ (SlotBusy slot log ∧ _) ↔ _
    rw [h.busy, beq_iff_eq]
    constructor
    · rintro (hslot | ⟨⟨j, hkj, hj, hslot⟩, -⟩)
      · exact ⟨m, hk, Nat.lt_succ_self m, hslot⟩
      · exact ⟨j, hkj, Nat.lt_succ_of_lt hj, hslot⟩
    · rintro ⟨j, hkj, hj, hslot⟩
      rcases Nat.lt_succ_iff_lt_or_eq.mp hj with hlt | rfl
      · exact .inr ⟨⟨j, hkj, hlt, hslot⟩, rfl⟩
      · exact .inl hslot
  event slot hslot := by
    refine List.mem_append_left _ ?_
    obtain ⟨hq, hslot'⟩ := Nat.lt_min.mp hslot
    rcases Nat.lt_succ_iff_lt_or_eq.mp hslot' with hlt | rfl
    · exact h.event slot (Nat.lt_min.mpr ⟨hq, hlt⟩)
    · rwa [Nat.mod_eq_of_lt hq] at hevent
  accepted := by
    rw [acceptedIn_append, h.accepted, List.range_succ, List.map_append]
    rfl

/-- **Finishing** transfer `k`. -/
theorem Scheduled.finish (h : Scheduled o T k m log) (hk : k < m) (hm : m ≤ k + queueSize)
    {r : Resources} (hslot : r.slot = k % queueSize) (hbuffer : r.buffer < T) :
    Scheduled o T (k + 1) m (log ++ [.finishDataXfer r]) where
  allowed := by
    refine always_concat.mpr ⟨h.allowed, hbuffer, ?_⟩
    rw [hslot]
    exact ⟨Nat.mod_lt k (by decide), h.event _ (slot_lt hk),
      (h.busy _).mpr ⟨k, Nat.le_refl k, hk, rfl⟩⟩
  busy slot := by
    rw [SlotBusy, busy_concat]
    show false = true ∨ (SlotBusy slot log ∧ (r.slot == slot) = false) ↔ _
    rw [h.busy, hslot, beq_eq_false_iff_ne]
    constructor
    · rintro (hf | ⟨⟨j, hkj, hj, rfl⟩, hne⟩)
      · exact absurd hf Bool.false_ne_true
      · exact ⟨j, Nat.lt_of_le_of_ne hkj fun heq ↦ hne (by rw [heq]), hj, rfl⟩
    · rintro ⟨j, hkj, hj, rfl⟩
      refine .inr ⟨⟨j, Nat.le_of_succ_le hkj, hj, rfl⟩, fun heq ↦ ?_⟩
      exact slot_ne (Nat.le_refl k) hkj (Nat.lt_of_lt_of_le hj hm) heq
  event slot hslot := List.mem_append_left _ (h.event slot hslot)
  accepted := by
    rw [acceptedIn_append, h.accepted]
    exact List.append_nil _

/-- Submissions and ends take turns on each slot. -/
theorem Scheduled.byTurns (h : Scheduled o T k m log) (slot : ℕ) :
    ByTurns (Call.beginsOn slot) (Call.finishesOn slot) log where
  begins := h.allowed.mono fun pre c hc hb ↦ by
    cases c with
    | beginDataXfer r accepted => exact beq_iff_eq.mp hb ▸ hc.2.2.2.1
    | _ => exact absurd hb Bool.false_ne_true
  finishes := h.allowed.mono fun pre c hc hf ↦ by
    cases c with
    | finishDataXfer r => exact beq_iff_eq.mp hf ▸ hc.2.2.2
    | _ => exact absurd hf Bool.false_ne_true

/-- In the end no slot is busy. -/
theorem Scheduled.not_busy_end (h : Scheduled o T m m log) (slot : ℕ) : ¬ SlotBusy slot log := by
  rw [h.busy]
  rintro ⟨j, hk, hj, -⟩
  exact absurd (Nat.lt_of_le_of_lt hk hj) (Nat.lt_irrefl m)

end scheduled

/-! ## The steps of the function keep it -/

section steps

variable {o : Outcomes} {txBuf rxBuf : List (BitVec 8)} {transferCount : BitVec 32}
  {enabled : Bool} {k m : ℕ} {s : Run}

theorem Pipeline.length_begun {T : ℕ} (h : Pipeline o T k m s) (hm : m < k + queueSize) :
    (Host.begun s.log).length < (finishedWith s.log).length + queueSize := by
  rw [h.begun, h.finished, List.length_map, List.length_map, List.length_range, List.length_range]
  exact hm

/-- What submitting transfer `m` records. -/
theorem Pipeline.log_beginDataXfer {T : ℕ} (h : Pipeline o T k m s) (buffer slot : ℕ) :
    (s.beginDataXfer o buffer slot).log =
      s.log ++ [.beginDataXfer ⟨buffer, slot, o.context m⟩ (o.accepted m)] := by
  rw [← h.begins]
  rfl

theorem scheduled_start (o : Outcomes) (transferCount : BitVec 32) :
    Scheduled o transferCount.toNat 0 0 (Run.start o transferCount).log where
  allowed := .of_forall fun c hc pre ↦ by
    obtain ⟨i, hi, rfl⟩ := List.mem_map.mp hc
    exact List.mem_range.mp hi
  busy slot := by
    refine iff_of_false (fun hbusy ↦ ?_) fun ⟨j, _, hj, _⟩ ↦ absurd hj (Nat.not_lt_zero j)
    obtain ⟨c, hc, hb⟩ := hbusy.exists_begin
    obtain ⟨i, -, rfl⟩ := List.mem_map.mp hc
    exact Bool.false_ne_true hb
  event slot hslot := absurd (Nat.lt_min.mp hslot).2 (Nat.not_lt_zero slot)
  accepted := by
    refine List.filterMap_eq_nil_iff.mpr fun c hc ↦ ?_
    obtain ⟨i, -, rfl⟩ := List.mem_map.mp hc
    rfl

/-- **The function keeps to the schedule.** -/
theorem kept_scheduled : Kept enabled o txBuf transferCount fun k m s ↦
    Scheduled o transferCount.toNat k m s.log where
  start := scheduled_start o transferCount
  first := by
    intro m s hp hs hm
    obtain ⟨hq, hT⟩ := Nat.lt_min.mp hm
    have hcall : Scheduled o transferCount.toNat 0 m (s.log ++ [.createEvent m]) :=
      hs.call (fun _ ↦ ⟨rfl, rfl⟩) hq
    have hbegin := hcall.begin (Nat.zero_le m) (by rwa [Nat.zero_add]) hT
      ((hp.call [.createEvent m] rfl rfl).length_begun (by rwa [Nat.zero_add]))
      (by rw [Nat.mod_eq_of_lt hq]; exact List.mem_append_right _ List.mem_cons_self)
    rw [Nat.mod_eq_of_lt hq] at hbegin
    show Scheduled o _ 0 (m + 1) ((s.call [.createEvent m]).beginDataXfer o m m).log
    rw [(hp.call [.createEvent m] rfl rfl).log_beginDataXfer]
    exact hbegin
  send := by
    intro m s hs
    refine hs.calls _ (fun c hc ↦ ?_) fun c hc log _ ↦ ?_
    all_goals
      rw [sendBulk] at hc
      split at hc
      · obtain rfl := List.mem_singleton.mp hc
        first
          | exact fun _ ↦ ⟨rfl, rfl⟩
          | exact trivial
      · exact absurd hc List.not_mem_nil
  finish := by
    intro k m s hp hs hk hm hT
    obtain ⟨calls, hcalls, -, -, hw⟩ := s.waitForXfer_eq o (k % queueSize)
    have hwait : Scheduled o transferCount.toNat k m (s.log ++ calls) := by
      refine hs.calls calls (fun c hc ↦ ?_) fun c hc log hlog ↦ ?_
      · rcases hcalls c hc with rfl | rfl | rfl <;> exact fun _ ↦ ⟨rfl, rfl⟩
      · have hslot := slot_lt hk
        have hbusy := (hlog.busy _).mpr ⟨k, Nat.le_refl k, hk, rfl⟩
        rcases hcalls c hc with rfl | rfl | rfl
        · exact ⟨(Nat.lt_min.mp hslot).1, hlog.event _ hslot, hbusy⟩
        · trivial
        · exact ⟨(Nat.lt_min.mp hslot).1, hlog.event _ hslot, hbusy⟩
    rw [hw]
    refine hwait.finish hk hm rfl ?_
    show submitted _ k - min queueSize transferCount.toNat < transferCount.toNat
    rw [submitted]
    omega
  submit := by
    intro k m s hp hs hk hm hq hT
    have hslot := Nat.mod_lt m (show 0 < queueSize by decide)
    show Scheduled o _ k (m + 1) (s.beginDataXfer o m (m % queueSize)).log
    rw [hp.log_beginDataXfer]
    exact hs.begin hk hm hT (hp.length_begun hm)
      (hs.event _ (Nat.lt_min.mpr ⟨hslot, Nat.lt_of_lt_of_le hslot hq⟩))
  nextSlot h := h

/-! ## The end of the call -/

/-- What is called after the loop. -/
def closing (transferCount : BitVec 32) : List Call :=
  .abort :: ((List.range (Run.queued transferCount)).map Call.closeHandle ++
    (List.range transferCount.toNat).map Call.deleteBuffer ++
      [.deleteOvLap, .deleteInBuf, .deleteInContext])

theorem log_eq (o : Outcomes) (txBuf rxBuf : List (BitVec 8)) (transferCount : BitVec 32) :
    (sendAndReadBulk true o txBuf rxBuf transferCount).log =
      (transferred true o txBuf transferCount).log ++ closing transferCount := by
  show ((transferred true o txBuf transferCount).log ++ [.abort]) ++ _ = _
  rw [List.append_assoc]
  rfl

/-- The calls after the loop, one by one. -/
theorem mem_closing {c : Call} (h : c ∈ closing transferCount) :
    c = .abort ∨ (∃ slot, slot < Run.queued transferCount ∧ c = .closeHandle slot) ∨
      (∃ i, i < transferCount.toNat ∧ c = .deleteBuffer i) ∨ c = .deleteOvLap ∨ c = .deleteInBuf ∨
      c = .deleteInContext := by
  simpa [closing, or_assoc, eq_comm] using h

theorem neither_of_mem_closing {c : Call} (h : c ∈ closing transferCount) : c.Neither := by
  rcases mem_closing h with rfl | ⟨_, _, rfl⟩ | ⟨_, _, rfl⟩ | rfl | rfl | rfl
  all_goals exact fun _ ↦ ⟨rfl, rfl⟩

/-- **The whole call is scheduled** if the initial submissions are accepted. -/
theorem scheduled_log (h : InitiallyAccepted o transferCount) (txBuf rxBuf : List (BitVec 8)) :
    Scheduled o transferCount.toNat transferCount.toNat transferCount.toNat
      (sendAndReadBulk true o txBuf rxBuf transferCount).log := by
  rw [log_eq]
  refine (kept_scheduled.transferred h).2.calls _ (fun c hc ↦ neither_of_mem_closing hc) ?_
  intro c hc log hlog
  rcases mem_closing hc with rfl | ⟨slot, hslot, rfl⟩ | ⟨i, hi, rfl⟩ | rfl | rfl | rfl
  · trivial
  · exact ⟨(Nat.lt_min.mp hslot).1, hlog.event slot hslot, hlog.not_busy_end⟩
  · exact ⟨hi, hlog.not_busy_end⟩
  · exact hlog.not_busy_end
  · trivial
  · trivial

/-! ## The schedule -/

/-- What `send_and_read_bulk` does with `transfer_count` transfers. -/
structure Schedule (o : Outcomes) (txBuf rxBuf : List (BitVec 8)) (transferCount : BitVec 32) :
    Prop where
  /-- The buffers are submitted once each, in order. -/
  buffers : (begun (sendAndReadBulk true o txBuf rxBuf transferCount).log).map Resources.buffer =
    List.range transferCount.toNat
  /-- Every call is allowed when it is made. -/
  allowed : Always (Allowed transferCount.toNat)
    (sendAndReadBulk true o txBuf rxBuf transferCount).log
  /-- At no time are there more than `QUEUE_SIZE` transfers submitted and not finished. -/
  inFlight : ∀ pre post, (sendAndReadBulk true o txBuf rxBuf transferCount).log = pre ++ post →
    (begun pre).length ≤ (finishedWith pre).length + queueSize
  /-- The transfers are finished in the order of their submission, each on its slot and with its
  context. -/
  finishes : (finishedWith (sendAndReadBulk true o txBuf rxBuf transferCount).log).map
      (fun r ↦ (r.slot, r.context)) =
    (begun (sendAndReadBulk true o txBuf rxBuf transferCount).log).map fun r ↦ (r.slot, r.context)
  /-- In no turn does `buffer_counter - read_offset` wrap. -/
  noUnderflow : ∀ n, n < transferCount.toNat →
    (Run.requested true o txBuf transferCount).bufferCounter ≤
      (Run.turns true o txBuf transferCount n).bufferCounter

/-- The queue is never longer than `QUEUE_SIZE` if every call is allowed. -/
theorem length_begun_le {T : ℕ} {log : List Call} (h : Always (Allowed T) log) :
    (begun log).length ≤ (finishedWith log).length + queueSize := by
  induction log using List.reverseRecOn with
  | nil => exact Nat.zero_le _
  | append_singleton log c ih =>
    obtain ⟨hlog, hc⟩ := always_concat.mp h
    have hle := ih hlog
    rw [begun_append, finishedWith_append, List.length_append, List.length_append]
    cases c with
    | beginDataXfer r accepted => exact hc.2.2.2.2
    | finishDataXfer r => exact Nat.le_trans hle (Nat.add_le_add_right (Nat.le_succ _) _)
    | _ => exact hle

/-- **The schedule**, whatever happens to the transfers. -/
theorem schedule (txBuf rxBuf : List (BitVec 8)) (h : InitiallyAccepted o transferCount) :
    Schedule o txBuf rxBuf transferCount := by
  have hp := pipeline_transferred txBuf true h
  have hallowed := (scheduled_log h txBuf rxBuf).allowed
  refine ⟨?_, hallowed, fun pre post heq ↦ ?_, ?_, fun n hn ↦ ?_⟩
  · rw [log_sendAndReadBulk.1, hp.begun, List.map_map]
    exact List.map_id _
  · rw [heq] at hallowed
    exact length_begun_le (always_append.mp hallowed).1
  · rw [log_sendAndReadBulk.1, log_sendAndReadBulk.2, hp.begun, hp.finished, List.map_map,
      List.map_map]
    rfl
  · have hkept : Kept true o txBuf transferCount fun _ _ _ ↦ True := kept_true
    obtain ⟨hturns, -⟩ := hkept.turns (Nat.le_of_lt hn)
    rw [BitVec.le_def, hturns.bufferCounter, hkept.requested.1.bufferCounter]
    exact le_submitted

/-- Three transfers, more than the queue holds. -/
theorem schedule_three : Schedule allWell [] [] 3 := schedule [] [] fun _ _ ↦ rfl

/-! ## What is freed -/

/-- The call releases something of a submission: its buffer, its event or its `OVERLAPPED`. -/
def Call.Releases (r : Resources) : Call → Prop
  | .deleteBuffer i => i = r.buffer
  | .closeHandle slot => slot = r.slot
  | .deleteOvLap => True
  | _ => False

/-- How often a submission on the slot is finished in the calls after it. -/
def ends (slot : ℕ) (log : List Call) : ℕ :=
  finishCount (Call.beginsOn slot) (Call.finishesOn slot) log

/-- Nothing is freed under a pending transfer. -/
structure Settled (log : List Call) : Prop where
  /-- A submission is finished once if it was accepted, and not at all if it was rejected. -/
  ends : ∀ pre r accepted post, log = pre ++ .beginDataXfer r accepted :: post →
    ends r.slot post = if accepted then 1 else 0
  /-- It has been finished when something of it is released. -/
  released : ∀ pre r mid c post, log = pre ++ .beginDataXfer r true :: (mid ++ c :: post) →
    c.Releases r → Host.ends r.slot mid = 1

theorem ends_eq_zero {log : List Call} (h : finishedWith log = []) (slot : ℕ) :
    ends slot log = 0 := by
  refine List.countP_eq_zero.mpr fun c hc hf ↦ ?_
  have hmem := (List.takeWhile_sublist _).subset hc
  cases c with
  | finishDataXfer r => exact absurd (List.filterMap_eq_nil_iff.mp h _ hmem) (Option.some_ne_none r)
  | _ => exact Bool.false_ne_true hf

/-- **If the loop is run**, every submission is finished, in time. -/
theorem Scheduled.ends_eq_one {T m : ℕ} {log pre post : List Call} {r : Resources} {accepted : Bool}
    (h : Scheduled o T m m log) (heq : log = pre ++ .beginDataXfer r accepted :: post) :
    ends r.slot post = 1 := by
  have hturns := h.byTurns r.slot
  have hend := h.not_busy_end r.slot
  rw [heq] at hturns
  rw [heq] at hend
  exact hturns.finishCount_eq_one hend (beq_self_eq_true r.slot)

theorem Scheduled.released {T m : ℕ} {log pre mid post : List Call} {c : Call} {r : Resources}
    {accepted : Bool} (h : Scheduled o T m m log)
    (heq : log = pre ++ .beginDataXfer r accepted :: (mid ++ c :: post)) (hc : c.Releases r) :
    ends r.slot mid = 1 := by
  have hsplit : log = (pre ++ .beginDataXfer r accepted :: mid) ++ c :: post := by
    rw [heq, List.append_assoc]
    rfl
  have hturns := h.byTurns r.slot
  have hallowed := h.allowed _ c post hsplit
  have hidle : ¬ SlotBusy r.slot (pre ++ .beginDataXfer r accepted :: mid) := by
    cases c with
    | deleteBuffer i => exact hallowed.2 r.slot
    | closeHandle slot => exact hallowed.2.2 r.slot
    | deleteOvLap => exact hallowed r.slot
    | _ => exact absurd hc id
  rw [hsplit] at hturns
  have hprefix : ByTurns (Call.beginsOn r.slot) (Call.finishesOn r.slot)
      (pre ++ .beginDataXfer r accepted :: mid) :=
    ⟨(always_append.mp hturns.begins).1, (always_append.mp hturns.finishes).1⟩
  exact hprefix.finishCount_eq_one hidle (beq_self_eq_true r.slot)

/-- The outcomes for which nothing is left pending: all submissions are accepted, or all of those
before the loop are rejected. -/
def AllOrNone (o : Outcomes) (transferCount : BitVec 32) : Prop :=
  (∀ j, j < transferCount.toNat → o.accepted j = true) ∨
    ∀ j, j < Run.queued transferCount → o.accepted j = false

/-- If every submission is finished or none is, it counts whether it was accepted or rejected. -/
theorem settled_iff_of_ends {log : List Call} {v : Bool}
    (haccepted : acceptedIn log = (List.range m).map o.accepted)
    (hends : ∀ pre r accepted post, log = pre ++ .beginDataXfer r accepted :: post →
      ends r.slot post = if v then 1 else 0)
    (hreleased : v = true → ∀ pre r mid c post,
      log = pre ++ .beginDataXfer r true :: (mid ++ c :: post) → c.Releases r →
        ends r.slot mid = 1) :
    Settled log ↔ ∀ j, j < m → o.accepted j = v := by
  constructor
  · intro hsettled j hj
    have hmem : o.accepted j ∈ acceptedIn log := by
      rw [haccepted]
      exact List.mem_map_of_mem (List.mem_range.mpr hj)
    obtain ⟨r, hr⟩ := exists_of_mem_acceptedIn hmem
    obtain ⟨pre, post, heq⟩ := List.append_of_mem hr
    have hsame := hsettled.ends pre r _ post heq
    rw [hends pre r _ post heq] at hsame
    revert hsame
    cases o.accepted j <;> cases v <;> decide
  · intro hall
    have hflag : ∀ pre r accepted post,
        log = pre ++ .beginDataXfer r accepted :: post → accepted = v := by
      intro pre r accepted post heq
      have hmem := mem_acceptedIn (heq ▸ List.mem_append_right pre List.mem_cons_self)
      rw [haccepted] at hmem
      obtain ⟨j, hj, rfl⟩ := List.mem_map.mp hmem
      exact hall j (List.mem_range.mp hj)
    refine ⟨fun pre r accepted post heq ↦ ?_, fun pre r mid c post heq hc ↦ ?_⟩
    · rw [hends pre r accepted post heq, hflag pre r accepted post heq]
    · exact hreleased (hflag pre r true _ heq).symm pre r mid c post heq hc

/-- If the loop is run, what counts is whether all submissions are accepted. -/
theorem settled_of_initiallyAccepted (h : InitiallyAccepted o transferCount) :
    Settled (sendAndReadBulk true o txBuf rxBuf transferCount).log ↔
      ∀ j, j < transferCount.toNat → o.accepted j = true := by
  have hs := scheduled_log h txBuf rxBuf
  exact settled_iff_of_ends hs.accepted (fun _ _ _ _ heq ↦ hs.ends_eq_one heq)
    fun _ _ _ _ _ _ heq hc ↦ hs.released heq hc

/-- If it is skipped, nothing may have been accepted. -/
theorem settled_of_not_initiallyAccepted (h : ¬ InitiallyAccepted o transferCount) :
    Settled (sendAndReadBulk true o txBuf rxBuf transferCount).log ↔
      ∀ j, j < Run.queued transferCount → o.accepted j = false := by
  have hkept : Kept true o txBuf transferCount fun k m s ↦
    Scheduled o transferCount.toNat k m s.log := kept_scheduled
  have hs := hkept.requested.2.1
  rw [← transferred_eq_requested h] at hs
  have hfinished : finishedWith (sendAndReadBulk true o txBuf rxBuf transferCount).log = [] := by
    rw [log_sendAndReadBulk.2, (pipeline_not_transferred txBuf true h).finished]
    rfl
  refine settled_iff_of_ends ?_ (fun pre r accepted post heq ↦ ?_) nofun
  · rw [log_eq, acceptedIn_append, acceptedIn_of_neither fun c hc ↦ neither_of_mem_closing hc,
      List.append_nil, hs.accepted]
  · rw [heq, finishedWith_append] at hfinished
    refine ends_eq_zero (List.filterMap_eq_nil_iff.mpr fun c hc ↦ ?_) r.slot
    exact List.filterMap_eq_nil_iff.mp (List.append_eq_nil_iff.mp hfinished).2 c
      (List.mem_cons_of_mem _ hc)

/-- **When nothing is freed under a pending transfer.** -/
theorem settled_iff (enabled : Bool) :
    Settled (sendAndReadBulk enabled o txBuf rxBuf transferCount).log ↔
      (enabled = true → AllOrNone o transferCount) := by
  cases enabled with
  | false =>
    refine iff_of_true ⟨fun pre r accepted post heq ↦ ?_, fun pre r mid c post heq _ ↦ ?_⟩ nofun
    all_goals exact absurd heq.symm (List.append_ne_nil_of_right_ne_nil pre (List.cons_ne_nil _ _))
  | true =>
    rw [AllOrNone, imp_iff_right rfl]
    by_cases h : InitiallyAccepted o transferCount
    · rw [settled_of_initiallyAccepted h]
      refine ⟨.inl, fun hor ↦ hor.elim id fun hnone j hj ↦ ?_⟩
      -- none and all of the initial submissions are accepted, so there are none
      have hpos : 0 < Run.queued transferCount := Nat.lt_min.mpr ⟨by decide, Nat.zero_lt_of_lt hj⟩
      exact absurd ((hnone 0 hpos).symm.trans (h 0 hpos)) Bool.false_ne_true
    · rw [settled_of_not_initiallyAccepted h]
      refine ⟨.inr, fun hor ↦ hor.elim (fun hall ↦ ?_) id⟩
      exact absurd (fun j hj ↦ hall j (Nat.lt_min.mp hj).2) h

/-- The first submission is accepted and the second rejected. -/
def secondRejected : Outcomes := { allWell with accepted := fun j ↦ j == 0 }

/-- **The first transfer is still pending when its buffer is freed.** -/
theorem not_settled_secondRejected :
    ¬ Settled (sendAndReadBulk true secondRejected [] [] 2).log := by
  have hinit : ¬ InitiallyAccepted secondRejected 2 := fun h ↦
    absurd (h 1 (by decide)) (by decide)
  rw [settled_of_not_initiallyAccepted hinit]
  exact fun h ↦ absurd (h 0 (by decide)) (by decide)

end steps

end Host
end Usb3FpgaCard
