import Usb3FpgaCard.Host.Window

/-!
# The transfer queue of `send_and_read_bulk`

The function keeps up to `QUEUE_SIZE` transfers going.  `Pipeline o T k m s` is the invariant of its
loop: `k` transfers have been finished and `m` submitted, and every slot holds what the transfer
pending on it was submitted with.

Three counters say where the loop is.  `q_ctr` follows the slots and is right; the buffer to finish
is computed from `buffer_counter`, which stops when the last buffer has been submitted, so from then
on it stays behind.  `finishing` is what the loop finishes a transfer with and `resources` what it
was submitted with; they are the same for all transfers only if there is just one
(`finishesOwn_iff`).
-/

set_option autoImplicit false

namespace Usb3FpgaCard
namespace Host

/-! ## Submissions and their ends -/

/-- What each call of `BeginDataXfer` in a log was given and has returned. -/
def begun (log : List Call) : List Resources :=
  log.filterMap fun
    | .beginDataXfer r _ => some r
    | _ => none

/-- What each call of `FinishDataXfer` in a log was given. -/
def finishedWith (log : List Call) : List Resources :=
  log.filterMap fun
    | .finishDataXfer r => some r
    | _ => none

/-- What transfer `j` is submitted with. -/
def resources (o : Outcomes) (j : ℕ) : Resources where
  buffer := j
  slot := j % queueSize
  context := o.context j

/-- How many of `T` transfers have been submitted when `k` have been finished. -/
def submitted (T k : ℕ) : ℕ := min (k + min queueSize T) T

section submitted

variable {T k : ℕ}

theorem lt_submitted (hk : k < T) : k < submitted T k := by
  rw [submitted, queueSize]
  omega

theorem le_submitted : min queueSize T ≤ submitted T k := by
  rw [submitted]
  omega

theorem submitted_le (k : ℕ) : submitted T k ≤ k + queueSize :=
  (Nat.min_le_left _ _).trans (Nat.add_le_add_left (Nat.min_le_left _ _) k)

theorem submitted_zero : submitted T 0 = min queueSize T := by
  rw [submitted, Nat.zero_add, Nat.min_assoc, Nat.min_self]

theorem submitted_self : submitted T T = T := by
  rw [submitted]
  omega

/-- While there are buffers left, the queue is full. -/
theorem submitted_of_lt (h : submitted T k < T) :
    submitted T k = k + queueSize ∧ submitted T (k + 1) = k + queueSize + 1 := by
  rw [submitted, queueSize] at h ⊢
  rw [submitted, queueSize]
  omega

theorem submitted_of_not_lt (h : ¬ submitted T k < T) : submitted T (k + 1) = submitted T k := by
  rw [submitted] at h
  rw [submitted, submitted]
  omega

end submitted

/-- What transfer `j` of `T` is finished with. -/
def finishing (o : Outcomes) (T j : ℕ) : Resources where
  buffer := submitted T j - min queueSize T
  slot := j % queueSize
  context := o.context j

/-- Transfer `j` has been completed: it was accepted, and finished without an error. -/
def Outcomes.completed (o : Outcomes) (j : ℕ) : Bool := o.accepted j && o.finished j

/-- Buffer `b` when `k` transfers have been finished. -/
def contents (o : Outcomes) (k b j : ℕ) : BitVec 8 :=
  if b < k ∧ o.completed b then (o.data b).getD j (o.newBuffer b j) else o.newBuffer b j

/-! ## The invariant -/

/-- `m` transfers have been submitted and `k` of them finished. -/
structure Pipeline (o : Outcomes) (T k m : ℕ) (s : Run) : Prop where
  /-- `buffer_counter` counts the submissions, -/
  bufferCounter : s.bufferCounter.toNat = m
  /-- which are numbered in their order. -/
  begins : s.begins = m
  /-- Every transfer has been waited for once, -/
  waits : s.waits = k
  /-- and finished once. -/
  finishes : s.finishes = k
  /-- A slot has the context of the transfer pending on it. -/
  inContext : ∀ j, k ≤ j → j < m → s.inContext (j % queueSize) = o.context j
  /-- A slot has the buffer of the transfer pending on it, if that was accepted. -/
  pending : ∀ j, k ≤ j → j < m →
    s.pending (j % queueSize) = if o.accepted j then some j else none
  /-- The buffers are submitted in order. -/
  begun : begun s.log = (List.range m).map (resources o)
  /-- The transfers are finished in order, but not with the buffers in order. -/
  finished : finishedWith s.log = (List.range k).map (finishing o T)
  /-- A buffer has what its transfer has delivered. -/
  inBuf : s.inBuf = contents o k
  /-- `status` remembers every error. -/
  status : s.status = true ↔
    (∀ j, j < m → o.accepted j = true) ∧ ∀ j, j < k → o.waited j = true ∧ o.finished j = true

section pipeline

variable {o : Outcomes} {T k m : ℕ} {s : Run}

/-- Waiting changes `status` and the log, but neither submits nor finishes anything. -/
theorem Run.waitForXfer_eq (s : Run) (o : Outcomes) (slot : ℕ) :
    ∃ calls, (∀ c ∈ calls, c = .waitForXfer slot ∨ c = .abort ∨ c = .waitForSingleObject slot) ∧
      Host.begun calls = [] ∧ finishedWith calls = [] ∧
      s.waitForXfer o slot =
        { s with
          status := s.status && o.waited s.waits
          waits := s.waits + 1
          log := s.log ++ calls } := by
  rw [Run.waitForXfer]
  cases hw : o.waited s.waits with
  | true => exact ⟨[.waitForXfer slot], by simp, rfl, rfl, by simp⟩
  | false =>
    cases hp : o.ioPending s.waits with
    | true =>
      exact ⟨[.waitForXfer slot, .abort, .waitForSingleObject slot], by simp, rfl, rfl, by simp⟩
    | false => exact ⟨[.waitForXfer slot, .abort], by simp, rfl, rfl, by simp⟩

theorem begun_append (l l' : List Call) : begun (l ++ l') = begun l ++ begun l' :=
  List.filterMap_append

theorem finishedWith_append (l l' : List Call) :
    finishedWith (l ++ l') = finishedWith l ++ finishedWith l' :=
  List.filterMap_append

/-- A transfer that completes fills its buffer, another leaves it. -/
theorem contents_succ (o : Outcomes) (k : ℕ) :
    contents o (k + 1) =
      if o.completed k then
        Function.update (contents o k) k fun j ↦ (o.data k).getD j (contents o k k j)
      else contents o k := by
  have hk : ∀ j, contents o k k j = o.newBuffer k j := fun j ↦
    if_neg fun h ↦ Nat.lt_irrefl k h.1
  funext b j
  by_cases hb : b = k
  · subst hb
    cases hc : o.completed b with
    | true => simp [contents, hc]
    | false => simp [contents, hc]
  · have hlt : b < k + 1 ↔ b < k := by omega
    cases hc : o.completed k with
    | true => simp [contents, hlt, hb]
    | false => simp [contents, hlt]

/-- Transfers pending together are on different slots. -/
theorem slot_ne {j : ℕ} (hk : k ≤ j) (hj : j < m) (hm : m < k + queueSize) :
    j % queueSize ≠ m % queueSize := by
  rw [queueSize] at hm ⊢
  omega

/-- **Submitting** keeps the invariant, on a slot no pending transfer has. -/
theorem Pipeline.submit (h : Pipeline o T k m s) (hm : m < k + queueSize) (hT : m + 1 < 2 ^ 32) :
    Pipeline o T k (m + 1)
      { s.beginDataXfer o m (m % queueSize) with bufferCounter := s.bufferCounter + 1 } where
  bufferCounter := by
    show (s.bufferCounter + 1).toNat = m + 1
    rw [BitVec.toNat_add, h.bufferCounter]
    exact Nat.mod_eq_of_lt hT
  begins := congrArg (· + 1) h.begins
  waits := h.waits
  finishes := h.finishes
  inContext j hk hj := by
    show Function.update s.inContext (m % queueSize) (o.context s.begins) (j % queueSize) = _
    rw [h.begins]
    rcases Nat.lt_succ_iff_lt_or_eq.mp hj with hlt | rfl
    · rw [Function.update_of_ne (slot_ne hk hlt hm), h.inContext j hk hlt]
    · rw [Function.update_self]
  pending j hk hj := by
    show Function.update s.pending (m % queueSize)
      (if o.accepted s.begins then some m else none) (j % queueSize) = _
    rw [h.begins]
    rcases Nat.lt_succ_iff_lt_or_eq.mp hj with hlt | rfl
    · rw [Function.update_of_ne (slot_ne hk hlt hm), h.pending j hk hlt]
    · rw [Function.update_self]
  begun := by
    rw [List.range_succ, List.map_append, ← h.begun]
    show Host.begun (s.log ++ _) = _
    rw [begun_append, h.begins]
    rfl
  finished := by
    rw [← h.finished]
    show finishedWith (s.log ++ _) = _
    rw [finishedWith_append]
    exact List.append_nil _
  inBuf := h.inBuf
  status := by
    show (s.status && o.accepted s.begins) = true ↔ _
    rw [Bool.and_eq_true, h.status, h.begins]
    constructor
    · rintro ⟨⟨ha, hw⟩, hm⟩
      refine ⟨fun j hj ↦ ?_, hw⟩
      rcases Nat.lt_succ_iff_lt_or_eq.mp hj with hlt | rfl
      · exact ha j hlt
      · exact hm
    · rintro ⟨ha, hw⟩
      exact ⟨⟨fun j hj ↦ ha j (Nat.lt_succ_of_lt hj), hw⟩, ha m (Nat.lt_succ_self m)⟩

/-- **Finishing** the oldest pending transfer keeps the invariant, whatever buffer it is done
with. -/
theorem Pipeline.finish (h : Pipeline o T k m s) (hk : k < m) {buffer : ℕ}
    (hbuf : buffer = (finishing o T k).buffer) :
    Pipeline o T (k + 1) m
      ((s.waitForXfer o (k % queueSize)).finishDataXfer o buffer (k % queueSize)) := by
  obtain ⟨calls, -, hcb, hcf, hw⟩ := s.waitForXfer_eq o (k % queueSize)
  rw [hw]
  refine ⟨h.bufferCounter, h.begins, congrArg (· + 1) h.waits, congrArg (· + 1) h.finishes,
    fun j hj ↦ h.inContext j (Nat.le_of_succ_le hj), fun j hj ↦ h.pending j (Nat.le_of_succ_le hj),
    ?_, ?_, ?_, ?_⟩
  · rw [← h.begun]
    show Host.begun ((s.log ++ calls) ++ _) = _
    rw [begun_append, begun_append, hcb, List.append_nil]
    exact List.append_nil _
  · rw [List.range_succ, List.map_append, ← h.finished]
    show finishedWith ((s.log ++ calls) ++ _) = _
    rw [finishedWith_append, finishedWith_append, hcf, List.append_nil, hbuf,
      h.inContext k (Nat.le_refl k) hk]
    rfl
  · show (if o.finished s.finishes then Run.deliver _ (k % queueSize) (o.data s.finishes)
      else s.inBuf) = _
    rw [contents_succ, Outcomes.completed, h.finishes, Run.deliver, h.pending k (Nat.le_refl k) hk,
      h.inBuf]
    cases o.accepted k with
    | true => rfl
    | false => cases o.finished k <;> rfl
  · show ((s.status && o.waited s.waits) && o.finished s.finishes) = true ↔ _
    rw [Bool.and_eq_true, Bool.and_eq_true, h.status, h.waits, h.finishes]
    constructor
    · rintro ⟨⟨⟨ha, hw⟩, hwk⟩, hfk⟩
      refine ⟨ha, fun j hj ↦ ?_⟩
      rcases Nat.lt_succ_iff_lt_or_eq.mp hj with hlt | rfl
      · exact hw j hlt
      · exact ⟨hwk, hfk⟩
    · rintro ⟨ha, hw⟩
      exact ⟨⟨⟨ha, fun j hj ↦ hw j (Nat.lt_succ_of_lt hj)⟩, (hw k (Nat.lt_succ_self k)).1⟩,
        (hw k (Nat.lt_succ_self k)).2⟩

/-- Calls of other kinds change nothing. -/
theorem Pipeline.call (h : Pipeline o T k m s) (calls : List Call) (hb : Host.begun calls = [])
    (hf : finishedWith calls = []) : Pipeline o T k m (s.call calls) where
  bufferCounter := h.bufferCounter
  begins := h.begins
  waits := h.waits
  finishes := h.finishes
  inContext := h.inContext
  pending := h.pending
  begun := by
    rw [← h.begun]
    show Host.begun (s.log ++ calls) = _
    rw [begun_append, hb, List.append_nil]
  finished := by
    rw [← h.finished]
    show finishedWith (s.log ++ calls) = _
    rw [finishedWith_append, hf, List.append_nil]
  inBuf := h.inBuf
  status := h.status

theorem Pipeline.nextSlot (h : Pipeline o T k m s) : Pipeline o T k m s.nextSlot :=
  ⟨h.bufferCounter, h.begins, h.waits, h.finishes, h.inContext, h.pending, h.begun, h.finished,
    h.inBuf, h.status⟩

end pipeline

/-! ## The initial submissions -/

theorem begun_map {f : ℕ → Call} (hf : ∀ i, begun [f i] = []) (n : ℕ) :
    begun ((List.range n).map f) = [] := by
  induction n with
  | zero => rfl
  | succ n ih =>
    rw [List.range_succ, List.map_append, begun_append, ih, List.map_singleton, hf]
    rfl

theorem finishedWith_map {f : ℕ → Call} (hf : ∀ i, finishedWith [f i] = []) (n : ℕ) :
    finishedWith ((List.range n).map f) = [] := by
  induction n with
  | zero => rfl
  | succ n ih =>
    rw [List.range_succ, List.map_append, finishedWith_append, ih, List.map_singleton, hf]
    rfl

variable {o : Outcomes} {transferCount : BitVec 32} {txBuf rxBuf : List (BitVec 8)}

theorem pipeline_start (T : ℕ) : Pipeline o T 0 0 (Run.start o transferCount) where
  bufferCounter := rfl
  begins := rfl
  waits := rfl
  finishes := rfl
  inContext j _ hj := absurd hj (Nat.not_lt_zero j)
  pending j _ hj := absurd hj (Nat.not_lt_zero j)
  begun := begun_map (fun _ ↦ rfl) _
  finished := finishedWith_map (fun _ ↦ rfl) _
  inBuf := by
    funext b j
    exact (if_neg fun h ↦ Nat.not_lt_zero b h.1).symm
  status := ⟨fun _ ↦ ⟨fun j hj ↦ absurd hj (Nat.not_lt_zero j), fun j hj ↦
    absurd hj (Nat.not_lt_zero j)⟩, fun _ ↦ rfl⟩

/-! ## The steps of the function -/

/-- `send_bulk` neither submits nor finishes a transfer of the other endpoint. -/
theorem begun_sendBulk (enabled : Bool) :
    begun (sendBulk enabled o txBuf).2 = [] ∧ finishedWith (sendBulk enabled o txBuf).2 = [] := by
  rw [sendBulk]
  split <;> exact ⟨rfl, rfl⟩

/-- What every step of `send_and_read_bulk` keeps, when `k` transfers have been finished and `m`
submitted. -/
structure Kept (enabled : Bool) (o : Outcomes) (txBuf : List (BitVec 8)) (transferCount : BitVec 32)
    (I : ℕ → ℕ → Run → Prop) : Prop where
  /-- It holds at the start. -/
  start : I 0 0 (Run.start o transferCount)
  /-- An initial submission keeps it, -/
  first : ∀ {m s}, Pipeline o transferCount.toNat 0 m s → I 0 m s → m < Run.queued transferCount →
    I 0 (m + 1) (s.submit o m)
  /-- so does sending the command, -/
  send : ∀ {m s}, I 0 m s → I 0 m (s.call (sendBulk enabled o txBuf).2)
  /-- waiting for a transfer and finishing it, -/
  finish : ∀ {k m s}, Pipeline o transferCount.toNat k m s → I k m s → k < m → m ≤ k + queueSize →
    k < transferCount.toNat →
    I (k + 1) m ((s.waitForXfer o (k % queueSize)).finishDataXfer o
      (finishing o transferCount.toNat k).buffer (k % queueSize))
  /-- another submission, -/
  submit : ∀ {k m s}, Pipeline o transferCount.toNat k m s → I k m s → k ≤ m → m < k + queueSize →
    queueSize ≤ m → m < transferCount.toNat →
    I k (m + 1) { s.beginDataXfer o m (m % queueSize) with bufferCounter := s.bufferCounter + 1 }
  /-- and going to the next slot. -/
  nextSlot : ∀ {k m s}, I k m s → I k m s.nextSlot

/-- The state in which the loop is entered, or not. -/
def Run.requested (enabled : Bool) (o : Outcomes) (txBuf : List (BitVec 8))
    (transferCount : BitVec 32) : Run :=
  ((Run.start o transferCount).submitAll o transferCount).call (sendBulk enabled o txBuf).2

/-- The state after `n` turns of the loop. -/
def Run.turns (enabled : Bool) (o : Outcomes) (txBuf : List (BitVec 8)) (transferCount : BitVec 32)
    (n : ℕ) : Run :=
  (fun s ↦
      s.transfer o transferCount (Run.requested enabled o txBuf transferCount).bufferCounter)^[n]
    (Run.requested enabled o txBuf transferCount)

variable {enabled : Bool} {I : ℕ → ℕ → Run → Prop}

/-- Nothing to keep but the pipeline. -/
theorem kept_true : Kept enabled o txBuf transferCount fun _ _ _ ↦ True where
  start := trivial
  first _ _ _ := trivial
  send _ := trivial
  finish _ _ _ _ _ := trivial
  submit _ _ _ _ _ _ := trivial
  nextSlot _ := trivial

/-- The first transfers are submitted on slots of their own, and `q_ctr` is 0. -/
theorem Kept.submitAll (hI : Kept enabled o txBuf transferCount I) :
    Pipeline o transferCount.toNat 0 (Run.queued transferCount)
        ((Run.start o transferCount).submitAll o transferCount) ∧
      I 0 (Run.queued transferCount) ((Run.start o transferCount).submitAll o transferCount) ∧
      ((Run.start o transferCount).submitAll o transferCount).qCtr = 0 := by
  have hfold : ∀ n, n ≤ Run.queued transferCount →
      Pipeline o transferCount.toNat 0 n
        ((List.range n).foldl (fun s i ↦ s.submit o i) (Run.start o transferCount)) ∧
      I 0 n ((List.range n).foldl (fun s i ↦ s.submit o i) (Run.start o transferCount)) ∧
      ((List.range n).foldl (fun s i ↦ s.submit o i) (Run.start o transferCount)).qCtr = 0 := by
    intro n
    induction n with
    | zero => exact fun _ ↦ ⟨pipeline_start _, hI.start, rfl⟩
    | succ n ih =>
      intro hn
      have hqueue : n < queueSize := Nat.lt_of_lt_of_le hn (Nat.min_le_left _ _)
      obtain ⟨hp, hi, hq⟩ := ih (Nat.le_of_succ_le hn)
      rw [List.range_succ, List.foldl_append]
      have hcall := hp.call [.createEvent n] rfl rfl
      have hsubmit := hcall.submit (by omega) (by rw [queueSize] at hqueue; omega)
      rw [Nat.mod_eq_of_lt hqueue] at hsubmit
      exact ⟨hsubmit, hI.first hp hi hn, hq⟩
  exact hfold _ (Nat.le_refl _)

/-! ## The loop -/

/-- The slot after slot `k % queueSize`. -/
theorem toNat_nextSlot {s : Run} {k : ℕ} (h : s.qCtr.toNat = k % queueSize) :
    s.nextSlot.qCtr.toNat = (k + 1) % queueSize := by
  rw [queueSize] at h ⊢
  have hq : s.qCtr = BitVec.ofNat 32 (k % 2) := by
    refine BitVec.eq_of_toNat_eq ?_
    rw [h, BitVec.toNat_ofNat]
    exact (Nat.mod_eq_of_lt (by omega)).symm
  rcases Nat.mod_two_eq_zero_or_one k with h0 | h1
  · rw [Run.nextSlot, hq, h0, show (k + 1) % 2 = 1 by omega]
    rfl
  · rw [Run.nextSlot, hq, h1, show (k + 1) % 2 = 0 by omega]
    rfl

section loop

variable {s : Run} {readOffset : BitVec 32} {k : ℕ}

/-- The index of the buffer to finish does not wrap. -/
theorem Pipeline.toNat_buffer
    (h : Pipeline o transferCount.toNat k (submitted transferCount.toNat k) s)
    (hr : readOffset.toNat = Run.queued transferCount) :
    (s.bufferCounter - readOffset).toNat = (finishing o transferCount.toNat k).buffer := by
  have hqueued : Run.queued transferCount = min queueSize transferCount.toNat := rfl
  rw [BitVec.toNat_sub_of_le, h.bufferCounter, hr, hqueued]
  · rfl
  · rw [BitVec.le_def, h.bufferCounter, hr, hqueued]
    exact le_submitted

/-- **Submitting a buffer that is left** fills the queue up, and leaves `q_ctr`. -/
theorem Kept.resubmit (hI : Kept enabled o txBuf transferCount I)
    (h : Pipeline o transferCount.toNat (k + 1) (submitted transferCount.toNat k) s)
    (hi : I (k + 1) (submitted transferCount.toNat k) s) (hq : s.qCtr.toNat = k % queueSize) :
    Pipeline o transferCount.toNat (k + 1) (submitted transferCount.toNat (k + 1))
        (s.resubmit o transferCount) ∧
      I (k + 1) (submitted transferCount.toNat (k + 1)) (s.resubmit o transferCount) ∧
      (s.resubmit o transferCount).qCtr = s.qCtr := by
  have hT := transferCount.isLt
  rw [Run.resubmit]
  split
  case isTrue hlt =>
    rw [BitVec.lt_def, h.bufferCounter] at hlt
    obtain ⟨hsub, hsub'⟩ := submitted_of_lt hlt
    rw [hsub] at h hi hlt
    have hnext := h.submit (by omega) (by omega)
    have hinext := hI.submit h hi (Nat.add_le_add_left (by decide) k) (by omega) (by omega) hlt
    rw [Nat.add_mod_right] at hnext hinext
    rw [hsub', h.bufferCounter, hq]
    exact ⟨hnext, hinext, rfl⟩
  case isFalse hge =>
    rw [BitVec.lt_def, h.bufferCounter] at hge
    rw [submitted_of_not_lt hge]
    exact ⟨h, hi, rfl⟩

/-- The body of the loop on a slot: waiting does not change the counters. -/
theorem Run.transfer_eq {slot : ℕ} (hq : s.qCtr.toNat = slot) :
    s.transfer o transferCount readOffset =
      (((s.waitForXfer o slot).finishDataXfer o (s.bufferCounter - readOffset).toNat
        slot).resubmit o transferCount).nextSlot ∧
    ((s.waitForXfer o slot).finishDataXfer o (s.bufferCounter - readOffset).toNat slot).qCtr =
      s.qCtr := by
  obtain ⟨calls, -, -, -, hw⟩ := s.waitForXfer_eq o slot
  constructor
  · rw [Run.transfer, hq, hw]
    show Run.nextSlot (Run.resubmit (Run.finishDataXfer _ _ _ s.qCtr.toNat) _ _) = _
    rw [hq]
  · rw [hw]
    rfl

/-- **One turn of the loop** finishes one transfer and submits one if there is one left. -/
theorem Kept.transfer (hI : Kept enabled o txBuf transferCount I)
    (h : Pipeline o transferCount.toNat k (submitted transferCount.toNat k) s)
    (hi : I k (submitted transferCount.toNat k) s) (hk : k < transferCount.toNat)
    (hq : s.qCtr.toNat = k % queueSize) (hr : readOffset.toNat = Run.queued transferCount) :
    Pipeline o transferCount.toNat (k + 1) (submitted transferCount.toNat (k + 1))
        (s.transfer o transferCount readOffset) ∧
      I (k + 1) (submitted transferCount.toNat (k + 1)) (s.transfer o transferCount readOffset) ∧
      (s.transfer o transferCount readOffset).qCtr.toNat = (k + 1) % queueSize := by
  have hfinish := h.finish (lt_submitted hk) (h.toNat_buffer hr)
  have hifinish := hI.finish h hi (lt_submitted hk) (submitted_le k) hk
  rw [← h.toNat_buffer hr] at hifinish
  obtain ⟨htransfer, hqCtr⟩ := Run.transfer_eq (o := o) (s := s) hq
  obtain ⟨hnext, hinext, hqCtr'⟩ := hI.resubmit hfinish hifinish (hqCtr ▸ hq)
  rw [htransfer]
  exact ⟨hnext.nextSlot, hI.nextSlot hinext, toNat_nextSlot (by rw [hqCtr', hqCtr, hq])⟩

/-- The state in which the loop is entered, or not. -/
theorem Kept.requested (hI : Kept enabled o txBuf transferCount I) :
    Pipeline o transferCount.toNat 0 (Run.queued transferCount)
        (Run.requested enabled o txBuf transferCount) ∧
      I 0 (Run.queued transferCount) (Run.requested enabled o txBuf transferCount) ∧
      (Run.requested enabled o txBuf transferCount).qCtr = 0 := by
  obtain ⟨hp, hi, hq⟩ := hI.submitAll
  exact ⟨hp.call _ (begun_sendBulk enabled).1 (begun_sendBulk enabled).2, hI.send hi, hq⟩

/-- **Some turns of the loop.** -/
theorem Kept.turns (hI : Kept enabled o txBuf transferCount I) {n : ℕ}
    (hn : n ≤ transferCount.toNat) :
    Pipeline o transferCount.toNat n (submitted transferCount.toNat n)
        (Run.turns enabled o txBuf transferCount n) ∧
      I n (submitted transferCount.toNat n) (Run.turns enabled o txBuf transferCount n) ∧
      (Run.turns enabled o txBuf transferCount n).qCtr.toNat = n % queueSize := by
  obtain ⟨hp, hi, hq⟩ := hI.requested
  induction n with
  | zero =>
    rw [submitted_zero]
    exact ⟨hp, hi, congrArg BitVec.toNat hq⟩
  | succ n ih =>
    obtain ⟨hp', hi', hq'⟩ := ih (Nat.le_of_succ_le hn)
    rw [Run.turns, Function.iterate_succ_apply']
    exact hI.transfer hp' hi' hn hq' hp.bufferCounter

end loop

/-! ## The whole call -/

/-- The initial submissions are accepted. -/
def InitiallyAccepted (o : Outcomes) (transferCount : BitVec 32) : Prop :=
  ∀ j, j < Run.queued transferCount → o.accepted j = true

theorem requested_status :
    (Run.requested enabled o txBuf transferCount).status = true ↔
      InitiallyAccepted o transferCount := by
  rw [kept_true.requested.1.status]
  exact ⟨And.left, fun h ↦ ⟨h, fun j hj ↦ absurd hj (Nat.not_lt_zero j)⟩⟩

theorem transferLoop_eq {readOffset : BitVec 32} (n : ℕ) (s : Run) :
    Run.transferLoop o transferCount readOffset n s =
      (fun s ↦ s.transfer o transferCount readOffset)^[n] s := by
  induction n generalizing s with
  | zero => rfl
  | succ n ih => exact ih _

/-- The loop is run to its end if the initial submissions are accepted, -/
theorem transferred_eq (h : InitiallyAccepted o transferCount) :
    transferred enabled o txBuf transferCount =
      Run.turns enabled o txBuf transferCount transferCount.toNat := by
  rw [Run.turns, ← transferLoop_eq]
  exact if_pos (requested_status.mpr h)

/-- and otherwise not at all. -/
theorem transferred_eq_requested (h : ¬ InitiallyAccepted o transferCount) :
    transferred enabled o txBuf transferCount = Run.requested enabled o txBuf transferCount :=
  if_neg fun hs ↦ h (requested_status.mp hs)

/-- **After the loop** all transfers have been submitted and finished. -/
theorem Kept.transferred (hI : Kept enabled o txBuf transferCount I)
    (h : InitiallyAccepted o transferCount) :
    Pipeline o transferCount.toNat transferCount.toNat transferCount.toNat
        (transferred enabled o txBuf transferCount) ∧
      I transferCount.toNat transferCount.toNat (transferred enabled o txBuf transferCount) := by
  obtain ⟨hp, hi, -⟩ := hI.turns (Nat.le_refl _)
  rw [submitted_self] at hp hi
  rw [transferred_eq h]
  exact ⟨hp, hi⟩

theorem pipeline_transferred (txBuf : List (BitVec 8)) (enabled : Bool)
    (h : InitiallyAccepted o transferCount) :
    Pipeline o transferCount.toNat transferCount.toNat transferCount.toNat
      (transferred enabled o txBuf transferCount) :=
  (kept_true.transferred h).1

/-- Without the loop nothing is finished. -/
theorem pipeline_not_transferred (txBuf : List (BitVec 8)) (enabled : Bool)
    (h : ¬ InitiallyAccepted o transferCount) :
    Pipeline o transferCount.toNat 0 (Run.queued transferCount)
      (transferred enabled o txBuf transferCount) := by
  rw [transferred_eq_requested h]
  exact kept_true.requested.1

/-- What is done after the loop neither submits nor finishes anything. -/
theorem log_sendAndReadBulk :
    begun (sendAndReadBulk true o txBuf rxBuf transferCount).log =
        begun (transferred true o txBuf transferCount).log ∧
      finishedWith (sendAndReadBulk true o txBuf rxBuf transferCount).log =
        finishedWith (transferred true o txBuf transferCount).log := by
  constructor
  · show begun ((_ ++ [.abort]) ++ ((_ ++ _) ++ _)) = _
    rw [begun_append, begun_append, begun_append, begun_append, begun_map (fun _ ↦ rfl),
      begun_map (fun _ ↦ rfl)]
    simp [begun]
  · show finishedWith ((_ ++ [.abort]) ++ ((_ ++ _) ++ _)) = _
    rw [finishedWith_append, finishedWith_append, finishedWith_append, finishedWith_append,
      finishedWith_map (fun _ ↦ rfl), finishedWith_map (fun _ ↦ rfl)]
    simp [finishedWith]

/-! ## Every transfer with its own resources -/

/-- Every transfer is finished with the buffer, the slot and the context it was submitted with. -/
def FinishesOwn (o : Outcomes) (txBuf rxBuf : List (BitVec 8)) (transferCount : BitVec 32) : Prop :=
  ∀ k, k < transferCount.toNat → ∃ r,
    (begun (sendAndReadBulk true o txBuf rxBuf transferCount).log)[k]? = some r ∧
      (finishedWith (sendAndReadBulk true o txBuf rxBuf transferCount).log)[k]? = some r

/-- The `k`-th submission and the `k`-th end: slot and context agree, the buffer is
`finishing`'s. -/
theorem calls_of_transfer (txBuf rxBuf : List (BitVec 8)) (h : InitiallyAccepted o transferCount)
    {k : ℕ} (hk : k < transferCount.toNat) :
    (begun (sendAndReadBulk true o txBuf rxBuf transferCount).log)[k]? = some (resources o k) ∧
      (finishedWith (sendAndReadBulk true o txBuf rxBuf transferCount).log)[k]? =
        some (finishing o transferCount.toNat k) := by
  have hp := pipeline_transferred txBuf true h
  rw [log_sendAndReadBulk.1, log_sendAndReadBulk.2, hp.begun, hp.finished]
  simp [hk]

/-- The buffer of transfer `k` is the right one as long as another is submitted after it. -/
theorem finishing_eq_iff {T k : ℕ} :
    finishing o T k = resources o k ↔ submitted T k - min queueSize T = k := by
  refine ⟨fun h ↦ congrArg Resources.buffer h, fun h ↦ ?_⟩
  exact Resources.ext h rfl rfl

/-- **The last of several transfers is finished with the buffer of the one before.** -/
theorem finishing_last {T : ℕ} (hT : 1 ≤ T) :
    finishing o T (T - 1) = resources o (T - 1) ↔ T = 1 := by
  rw [finishing_eq_iff, submitted, queueSize]
  omega

/-- **When every transfer is finished with its own resources**: if and only if there is just
one. -/
theorem finishesOwn_iff (hT : 1 ≤ transferCount.toNat) (h : InitiallyAccepted o transferCount) :
    FinishesOwn o txBuf rxBuf transferCount ↔ transferCount = 1 := by
  have hone : transferCount = 1 ↔ transferCount.toNat = 1 := by
    rw [← BitVec.toNat_inj]
    rfl
  have hcalls : FinishesOwn o txBuf rxBuf transferCount ↔
      ∀ k, k < transferCount.toNat →
        finishing o transferCount.toNat k = resources o k := by
    refine forall_congr' fun k ↦ imp_congr_right fun hk ↦ ?_
    obtain ⟨hb, hf⟩ := calls_of_transfer txBuf rxBuf h hk
    rw [hb, hf]
    simp [eq_comm]
  rw [hcalls, hone, ← finishing_last (o := o) hT]
  refine ⟨fun hall ↦ hall _ (Nat.sub_lt hT Nat.one_pos), fun hlast k hk ↦ ?_⟩
  have h1 := (finishing_last hT).mp hlast
  rwa [show k = transferCount.toNat - 1 by omega]

/-- Everything goes well, with data of zeros. -/
def allWell : Outcomes where
  accepted _ := true
  context k := k
  waited _ := true
  ioPending _ := false
  finished _ := true
  data _ := List.replicate rxTransferSize 0
  data_le _ := Nat.le_of_eq List.length_replicate
  sent := true
  newBuffer _ _ := 0xFF
  newContext _ := 0

/-- One transfer is finished with its own resources. -/
theorem finishesOwn_one : FinishesOwn allWell [] [] 1 :=
  (finishesOwn_iff (by decide) fun _ _ ↦ rfl).mpr rfl

/-- **The second of two is not.** -/
theorem not_finishesOwn_two : ¬ FinishesOwn allWell [] [] 2 := by
  intro hs
  obtain ⟨r, hb, hf⟩ := hs 1 (by decide)
  have hinit : InitiallyAccepted allWell 2 := fun _ _ ↦ rfl
  obtain ⟨hb', hf'⟩ := calls_of_transfer [] [] hinit (k := 1) (by decide)
  rw [hb, Option.some_inj] at hb'
  rw [hf, Option.some_inj, hb'] at hf'
  exact absurd (congrArg Resources.buffer hf') (by decide)

end Host
end Usb3FpgaCard
