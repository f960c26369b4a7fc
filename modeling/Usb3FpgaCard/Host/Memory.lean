import Usb3FpgaCard.History.Custody
import Usb3FpgaCard.Host.Link

/-!
# The memory of `send_and_read_bulk`

The function makes a receive buffer for each transfer and an event for each slot, and releases all
of them at its end.  Whatever the calls of the endpoint return, also when a request is rejected, a
wait times out or the loop is skipped, it uses only what it has, and leaves nothing behind
(`owns_sendAndReadBulk`); and so does the window, in any sequence of events (`owns_run`).

What may go wrong nevertheless is not in these calls: the driver still writes to buffers of
transfers that were begun and not finished.
-/

set_option autoImplicit false

namespace Usb3FpgaCard
namespace Host

open History

/-! ## Resources -/

/-- What the function acquires. -/
inductive Resource where
  /-- `inBuf[i]`. -/
  | buffer (i : ℕ)
  /-- `inOvLap[slot].hEvent`. -/
  | event (slot : ℕ)
  deriving DecidableEq

/-- What the calls do with them.  A transfer is given its buffer and its event. -/
def memory : Custody Call Resource where
  acquires
    | .newBuffer i, r => r == .buffer i
    | .createEvent slot, r => r == .event slot
    | _, _ => false
  releases
    | .deleteBuffer i, r => r == .buffer i
    | .closeHandle slot, r => r == .event slot
    | _, _ => false
  uses
    | .beginDataXfer x _, r | .finishDataXfer x, r => r == .buffer x.buffer || r == .event x.slot
    | .waitForXfer slot, r | .waitForSingleObject slot, r => r == .event slot
    | _, _ => false

/-- The buffers from `a` to `b` and the events from `c` to `d`. -/
def Span (a b c d : ℕ) : Resource → Prop
  | .buffer i => a ≤ i ∧ i < b
  | .event slot => c ≤ slot ∧ slot < d

/-- What there is when `m` of `T` transfers have been submitted. -/
def Held (T m : ℕ) : Resource → Prop := Span 0 T 0 (min queueSize m)

section calls

variable {d T m i slot : ℕ}

/-- `inBuf[i] = new UCHAR[RX_TRANSFER_SIZE]`. -/
theorem moves_newBuffer : memory.Moves (Span 0 i 0 0) (.newBuffer i) (Span 0 (i + 1) 0 0) where
  acquires r hr := by
    obtain rfl := beq_iff_eq.mp hr
    exact fun h ↦ Nat.lt_irrefl i h.2
  releases _ hr := absurd hr Bool.false_ne_true
  uses _ hr := absurd hr Bool.false_ne_true
  leaves r := by
    cases r with
    | buffer j => simp [memory, Span]; omega
    | event s => simp [memory, Span]

/-- `CreateEvent`. -/
theorem moves_createEvent :
    memory.Moves (Span 0 T 0 slot) (.createEvent slot) (Span 0 T 0 (slot + 1)) where
  acquires r hr := by
    obtain rfl := beq_iff_eq.mp hr
    exact fun h ↦ Nat.lt_irrefl slot h.2
  releases _ hr := absurd hr Bool.false_ne_true
  uses _ hr := absurd hr Bool.false_ne_true
  leaves r := by
    cases r with
    | buffer j => simp [memory, Span]
    | event s => simp [memory, Span]; omega

/-- `CloseHandle`. -/
theorem moves_closeHandle (h : slot < d) :
    memory.Moves (Span 0 T slot d) (.closeHandle slot) (Span 0 T (slot + 1) d) where
  acquires _ hr := absurd hr Bool.false_ne_true
  releases r hr := by
    obtain rfl := beq_iff_eq.mp hr
    exact ⟨Nat.le_refl slot, h⟩
  uses _ hr := absurd hr Bool.false_ne_true
  leaves r := by
    cases r with
    | buffer j => simp [memory, Span]
    | event s => simp [memory, Span]; omega

/-- `delete [] inBuf[i]`. -/
theorem moves_deleteBuffer (h : i < T) :
    memory.Moves (Span i T d d) (.deleteBuffer i) (Span (i + 1) T d d) where
  acquires _ hr := absurd hr Bool.false_ne_true
  releases r hr := by
    obtain rfl := beq_iff_eq.mp hr
    exact ⟨Nat.le_refl i, h⟩
  uses _ hr := absurd hr Bool.false_ne_true
  leaves r := by
    cases r with
    | buffer j => simp [memory, Span]; omega
    | event s => simp [memory, Span]

theorem held_event (h : slot < min queueSize m) : Held T m (.event slot) := ⟨Nat.zero_le _, h⟩

/-- `BeginDataXfer`. -/
theorem moves_beginDataXfer {x : Resources} {accepted : Bool} (hb : x.buffer < T)
    (hs : x.slot < min queueSize m) :
    memory.Moves (Held T m) (.beginDataXfer x accepted) (Held T m) := by
  refine .of_uses (fun _ ↦ ⟨rfl, rfl⟩) fun r hr ↦ ?_
  rcases Bool.or_eq_true_iff.mp hr with hr | hr
  · exact beq_iff_eq.mp hr ▸ ⟨Nat.zero_le _, hb⟩
  · exact beq_iff_eq.mp hr ▸ held_event hs

/-- `FinishDataXfer`. -/
theorem moves_finishDataXfer {x : Resources} (hb : x.buffer < T) (hs : x.slot < min queueSize m) :
    memory.Moves (Held T m) (.finishDataXfer x) (Held T m) := by
  refine .of_uses (fun _ ↦ ⟨rfl, rfl⟩) fun r hr ↦ ?_
  rcases Bool.or_eq_true_iff.mp hr with hr | hr
  · exact beq_iff_eq.mp hr ▸ ⟨Nat.zero_le _, hb⟩
  · exact beq_iff_eq.mp hr ▸ held_event hs

/-- The other calls. -/
theorem moves_of_none {S : Resource → Prop} {call : Call}
    (h : ∀ r, memory.acquires call r = false ∧ memory.releases call r = false ∧
      memory.uses call r = false) : memory.Moves S call S :=
  .of_uses (fun r ↦ ⟨(h r).1, (h r).2.1⟩) fun r hr ↦ absurd hr (by
    rw [(h r).2.2]
    exact Bool.false_ne_true)

/-- Waiting for a transfer. -/
theorem moves_wait {call : Call} (hs : slot < min queueSize m)
    (h : call = .waitForXfer slot ∨ call = .abort ∨ call = .waitForSingleObject slot) :
    memory.Moves (Held T m) call (Held T m) := by
  rcases h with rfl | rfl | rfl
  · exact .of_uses (fun _ ↦ ⟨rfl, rfl⟩) fun r hr ↦ beq_iff_eq.mp hr ▸ held_event hs
  · exact moves_of_none fun _ ↦ ⟨rfl, rfl, rfl⟩
  · exact .of_uses (fun _ ↦ ⟨rfl, rfl⟩) fun r hr ↦ beq_iff_eq.mp hr ▸ held_event hs

/-- A call of the other endpoint. -/
theorem moves_sendBulk {S : Resource → Prop} {call : Call} {enabled : Bool} {o : Outcomes}
    {txBuf : List (BitVec 8)} (h : call ∈ (sendBulk enabled o txBuf).2) :
    memory.Moves S call S := by
  rw [sendBulk] at h
  split at h
  · obtain rfl := List.mem_singleton.mp h
    exact moves_of_none fun _ ↦ ⟨rfl, rfl, rfl⟩
  · exact absurd h List.not_mem_nil

end calls

/-! ## One call of the function -/

section call

variable {enabled : Bool} {o : Outcomes} {txBuf : List (BitVec 8)} {transferCount : BitVec 32}

theorem owns_start (o : Outcomes) (transferCount : BitVec 32) :
    memory.Owns (Run.start o transferCount).log (Held transferCount.toNat 0) := by
  have hstart : memory.Owns [] (Span 0 0 0 0) := Custody.owns_nil.congr fun r ↦ by
    cases r <;> simp [Span]
  exact hstart.loop (S := fun i ↦ Span 0 i 0 0) fun i _ ↦ moves_newBuffer

/-- **Every step of the function** uses only what it has. -/
theorem kept_owns : Kept enabled o txBuf transferCount fun _ m s ↦
    memory.Owns s.log (Held transferCount.toNat m) where
  start := owns_start o transferCount
  first := by
    intro m s hp hs hm
    obtain ⟨hq, hT⟩ := Nat.lt_min.mp hm
    have hevent : memory.Owns (s.log ++ [.createEvent m]) (Held transferCount.toNat (m + 1)) := by
      have hmin : min queueSize m = m := Nat.min_eq_right (Nat.le_of_lt hq)
      rw [Held, hmin] at hs
      rw [Held, Nat.min_eq_right (Nat.succ_le_of_lt hq)]
      exact hs.concat moves_createEvent
    exact hevent.concat (moves_beginDataXfer hT (Nat.lt_min.mpr ⟨hq, Nat.lt_succ_self m⟩))
  send hs := hs.uses fun _ hc ↦ moves_sendBulk hc
  finish := by
    intro k m s hp hs hk hm hT
    obtain ⟨calls, hcalls, -, -, hw⟩ := s.waitForXfer_eq o (k % queueSize)
    rw [hw]
    refine (hs.uses fun c hc ↦ moves_wait (slot_lt hk) (hcalls c hc)).concat
      (moves_finishDataXfer ?_ (slot_lt hk))
    show submitted _ k - min queueSize transferCount.toNat < transferCount.toNat
    rw [submitted]
    omega
  submit := by
    intro k m s hp hs hk hm hq hT
    have hheld : Held transferCount.toNat (m + 1) = Held transferCount.toNat m := by
      rw [Held, Held, Nat.min_eq_left hq, Nat.min_eq_left (Nat.le_succ_of_le hq)]
    rw [hheld]
    refine hs.concat (moves_beginDataXfer hT ?_)
    rw [Nat.min_eq_left hq]
    exact Nat.mod_lt m (by decide)
  nextSlot hs := hs

/-- After the loop, or without it, all buffers and events are there. -/
theorem owns_transferred (enabled : Bool) (o : Outcomes) (txBuf : List (BitVec 8))
    (transferCount : BitVec 32) : memory.Owns (transferred enabled o txBuf transferCount).log
      (Span 0 transferCount.toNat 0 (Run.queued transferCount)) := by
  have hkept : Kept enabled o txBuf transferCount fun _ m s ↦
    memory.Owns s.log (Held transferCount.toNat m) := kept_owns
  by_cases h : InitiallyAccepted o transferCount
  · exact (hkept.transferred h).2
  · have hrequested := hkept.requested.2.1
    rw [Held, Run.queued, ← Nat.min_assoc, Nat.min_self] at hrequested
    rw [transferred_eq_requested h]
    exact hrequested

/-- What is called after the loop releases them. -/
theorem owns_closing {log : List Call}
    (h : memory.Owns log (Span 0 transferCount.toNat 0 (Run.queued transferCount))) :
    memory.Owns (log ++ closing transferCount) fun _ ↦ False := by
  have hevents := (h.concat (e := .abort) (moves_of_none fun _ ↦ ⟨rfl, rfl, rfl⟩)).loop
    (S := fun i ↦ Span 0 transferCount.toNat i (Run.queued transferCount))
    fun i hi ↦ moves_closeHandle hi
  have hbuffers := hevents.loop
    (S := fun i ↦ Span i transferCount.toNat (Run.queued transferCount) (Run.queued transferCount))
    fun i hi ↦ moves_deleteBuffer hi
  have harrays : ∀ c ∈ [Call.deleteOvLap, .deleteInBuf, .deleteInContext],
      memory.Moves (Span transferCount.toNat transferCount.toNat (Run.queued transferCount)
        (Run.queued transferCount)) c (Span transferCount.toNat transferCount.toNat
        (Run.queued transferCount) (Run.queued transferCount)) := fun c hc ↦ by
    simp only [List.mem_cons, List.not_mem_nil, or_false] at hc
    rcases hc with rfl | rfl | rfl <;> exact moves_of_none fun r ↦ ⟨rfl, rfl, rfl⟩
  have hlog : log ++ closing transferCount = log ++ [.abort] ++
      (List.range (Run.queued transferCount)).map Call.closeHandle ++
      (List.range transferCount.toNat).map Call.deleteBuffer ++
      [.deleteOvLap, .deleteInBuf, .deleteInContext] := by
    simp [closing]
  rw [hlog]
  refine (hbuffers.uses harrays).congr fun r ↦ iff_of_false (fun hr ↦ ?_) id
  cases r with
  | buffer i => exact absurd (Nat.lt_of_le_of_lt hr.1 hr.2) (Nat.lt_irrefl _)
  | event slot => exact absurd (Nat.lt_of_le_of_lt hr.1 hr.2) (Nat.lt_irrefl _)

/-- **Nothing is used that is not there, and nothing is left**, whatever the endpoint does. -/
theorem owns_sendAndReadBulk (enabled : Bool) (o : Outcomes) (txBuf rxBuf : List (BitVec 8))
    (transferCount : BitVec 32) :
    memory.Owns (sendAndReadBulk enabled o txBuf rxBuf transferCount).log fun _ ↦ False := by
  cases enabled with
  | false => exact Custody.owns_nil
  | true =>
    rw [log_eq]
    exact owns_closing (owns_transferred true o txBuf transferCount)

end call

/-! ## A run of the window -/

/-- The calls that have been made. -/
def calls (log : List Action) : List Call :=
  log.filterMap fun
    | .call c _ _ _ => some c
    | .qAssert _ => none

variable {w : Window}

theorem calls_append (l l' : List Action) : calls (l ++ l') = calls l ++ calls l' :=
  List.filterMap_append

theorem calls_map_action (l : List Call) : calls (l.map w.action) = l := by
  rw [calls, List.filterMap_map]
  exact List.filterMap_some

/-- The calls of `send_and_read_bulk`, with the assertion of `send_bulk` between them. -/
theorem calls_sendAndReadBulkActions (o : Outcomes) (txBuf : List (BitVec 8))
    (transferCount : BitVec 32) :
    calls (w.sendAndReadBulkActions o txBuf transferCount) =
      (sendAndReadBulk w.communicationEnabled o txBuf w.dataBuffer transferCount).log := by
  have hassert : ∀ (condition : Bool) (l : List Action),
      calls (.qAssert condition :: l) = calls l := fun _ _ ↦ rfl
  rw [Window.sendAndReadBulkActions, hassert]
  split
  · rename_i h
    rw [calls_append, hassert, calls_map_action, calls_map_action, List.take_append_drop, h]
  · rename_i h
    rw [Bool.not_eq_true] at h
    rw [h]
    rfl

/-- **One event** leaves nothing. -/
theorem owns_actions (w : Window) (e : UiEvent) :
    memory.Owns (calls (w.actions e)) fun _ ↦ False := by
  cases e with
  | select => exact Custody.owns_nil
  | gpio ui o =>
    have hcalls : calls (w.sendBulkActions o (padButton 0 (populateHeader ui [] 0))) =
        (sendBulk w.communicationEnabled o (padButton 0 (populateHeader ui [] 0))).2 :=
      calls_map_action _
    rw [Window.actions, hcalls]
    exact Custody.owns_nil.uses fun _ hc ↦ moves_sendBulk hc
  | start ui v o =>
    rw [Window.actions]
    split
    · rw [calls_sendAndReadBulkActions]
      exact owns_sendAndReadBulk _ _ _ _ _
    · exact Custody.owns_nil
  | _ => exact Custody.owns_nil

/-- **The window leaves nothing behind**, in any run. -/
theorem owns_run (api : CyApi) (devices : List Device) (es : List UiEvent) :
    memory.Owns (calls (Window.run api devices es).log) fun _ ↦ False := by
  induction es using List.reverseRecOn with
  | nil =>
    rw [Window.run, List.foldl_nil, (relists_construct devices).log]
    exact Custody.owns_nil
  | append_singleton es e ih =>
    have hrun : (Window.run api devices (es ++ [e])).log =
        (Window.run api devices es).log ++ (Window.run api devices es).actions e := by
      rw [Window.run, List.foldl_append]
      exact log_handle
    rw [hrun, calls_append]
    exact ih.append (owns_actions _ e)

end Host
end Usb3FpgaCard
