import Mathlib.Data.List.Basic
import Mathlib.Data.List.GetD
import Usb3FpgaCard.Host.Queue

/-!
# What `send_and_read_bulk` reports

The function has two ways to tell its caller what has happened, `rx_buf` and its result.  `rx_buf`
always gets all bytes of all buffers, received or not, and the result knows nothing of the lengths
that were delivered or of `send_bulk`.  So the report is honest only if there is nothing to report:
every transfer has delivered a full buffer, and the command was sent, unless a timeout has made the
result false anyway (`honest_iff`).
-/

set_option autoImplicit false

namespace Usb3FpgaCard
namespace Host

/-! ## Honest reports -/

/-- What transfer `k` has delivered. -/
def Outcomes.delivered (o : Outcomes) (k : ℕ) : List (BitVec 8) :=
  if o.completed k then o.data k else []

/-- Transfer `k` has been completed with a full buffer. -/
def Outcomes.Full (o : Outcomes) (k : ℕ) : Prop :=
  o.completed k = true ∧ (o.data k).length = rxTransferSize

/-- What has been delivered by the transfers finished in a log, in the order they were submitted. -/
def deliveredIn (o : Outcomes) (log : List Call) : List (BitVec 8) :=
  (List.range (finishedWith log).length).flatMap o.delivered

/-- `send_and_read_bulk` tells its caller the truth. -/
structure Honest (enabled : Bool) (o : Outcomes) (txBuf rxBuf : List (BitVec 8))
    (transferCount : BitVec 32) : Prop where
  /-- `rx_buf` is what was received. -/
  data : (sendAndReadBulk enabled o txBuf rxBuf transferCount).rxBuf =
    deliveredIn o (sendAndReadBulk enabled o txBuf rxBuf transferCount).log
  /-- The result is true only if the command was sent and everything was received. -/
  flag : (sendAndReadBulk enabled o txBuf rxBuf transferCount).value = true →
    (sendBulk enabled o txBuf).1 = true ∧
      (finishedWith (sendAndReadBulk enabled o txBuf rxBuf transferCount).log).length =
        transferCount.toNat ∧
      ∀ k, k < transferCount.toNat → o.Full k

variable {o : Outcomes} {transferCount : BitVec 32} {txBuf rxBuf : List (BitVec 8)} {n k : ℕ}

/-! ## Lengths -/

theorem rxTransferSize_pos : 0 < rxTransferSize := by decide

theorem Outcomes.length_delivered_le (o : Outcomes) (k : ℕ) :
    (o.delivered k).length ≤ rxTransferSize := by
  rw [Outcomes.delivered]
  split
  · exact o.data_le k
  · exact Nat.zero_le _

theorem Outcomes.full_iff : o.Full k ↔ (o.delivered k).length = rxTransferSize := by
  rw [Outcomes.Full, Outcomes.delivered]
  cases o.completed k with
  | true => simp
  | false => simp [Ne.symm (Nat.ne_of_gt rxTransferSize_pos)]

theorem length_received (s : Run) :
    (s.received transferCount).length = transferCount.toNat * rxTransferSize := by
  rw [Run.received]
  generalize transferCount.toNat = n
  induction n with
  | zero => simp
  | succ n ih =>
    rw [List.range_succ, List.flatMap_append, List.length_append, ih, List.flatMap_singleton,
      List.length_map, List.length_range, Nat.succ_mul]

theorem length_flatMap_delivered_le (o : Outcomes) (n : ℕ) :
    ((List.range n).flatMap o.delivered).length ≤ n * rxTransferSize := by
  induction n with
  | zero => simp
  | succ n ih =>
    rw [List.range_succ, List.flatMap_append, List.length_append, List.flatMap_singleton,
      Nat.succ_mul]
    exact Nat.add_le_add ih (o.length_delivered_le n)

/-- As many bytes as fit have been delivered only if every buffer is full. -/
theorem full_of_length (h : ((List.range n).flatMap o.delivered).length = n * rxTransferSize) :
    ∀ k, k < n → o.Full k := by
  induction n with
  | zero => exact fun k hk ↦ absurd hk (Nat.not_lt_zero k)
  | succ n ih =>
    rw [List.range_succ, List.flatMap_append, List.length_append, List.flatMap_singleton,
      Nat.succ_mul] at h
    have hle := length_flatMap_delivered_le o n
    have hle' := o.length_delivered_le n
    intro k hk
    rcases Nat.lt_succ_iff_lt_or_eq.mp hk with hlt | rfl
    · exact ih (by omega) k hlt
    · exact Outcomes.full_iff.mpr (by omega)

/-! ## The data -/

/-- A full buffer is what was delivered. -/
theorem contents_of_full (h : o.Full k) (hk : k < n) :
    (List.range rxTransferSize).map (contents o n k) = o.delivered k := by
  obtain ⟨hc, hl⟩ := h
  rw [Outcomes.delivered, if_pos hc]
  refine List.ext_getElem (by rw [List.length_map, List.length_range, hl]) fun i h1 h2 ↦ ?_
  rw [List.getElem_map, List.getElem_range, contents, if_pos ⟨hk, hc⟩, List.getD_eq_getElem _ _ h2]

/-- **The data is right only if every transfer has filled its buffer.** -/
theorem rxBuf_eq_iff (hT : 1 ≤ transferCount.toNat) :
    (sendAndReadBulk true o txBuf rxBuf transferCount).rxBuf =
        deliveredIn o (sendAndReadBulk true o txBuf rxBuf transferCount).log ↔
      ∀ k, k < transferCount.toNat → o.Full k := by
  have hlen : (sendAndReadBulk true o txBuf rxBuf transferCount).rxBuf.length =
      transferCount.toNat * rxTransferSize := length_received _
  rw [deliveredIn, log_sendAndReadBulk.2]
  by_cases hinit : InitiallyAccepted o transferCount
  · have hp := pipeline_transferred txBuf true hinit
    rw [hp.finished, List.length_map, List.length_range]
    constructor
    · intro heq
      exact full_of_length (heq ▸ hlen)
    · intro hfull
      show (List.range transferCount.toNat).flatMap (fun i ↦ (List.range rxTransferSize).map
        ((transferred true o txBuf transferCount).inBuf i)) = _
      rw [hp.inBuf]
      refine List.flatMap_congr fun i hi ↦ ?_
      exact contents_of_full (hfull i (List.mem_range.mp hi)) (List.mem_range.mp hi)
  · have hp := pipeline_not_transferred txBuf true hinit
    rw [hp.finished]
    constructor
    · intro heq
      rw [heq] at hlen
      exact absurd hlen (Nat.ne_of_lt (Nat.mul_pos hT rxTransferSize_pos))
    · intro hfull
      refine absurd (fun j hj ↦ ?_) hinit
      have := (hfull j (Nat.lt_of_lt_of_le hj (Nat.min_le_right _ _))).1
      rw [Outcomes.completed, Bool.and_eq_true] at this
      exact this.1

/-! ## The result -/

/-- **What the result says** when all transfers have been completed: no wait has timed out. -/
theorem value_iff (hfull : ∀ k, k < transferCount.toNat → o.Full k) :
    (sendAndReadBulk true o txBuf rxBuf transferCount).value = true ↔
      ∀ k, k < transferCount.toNat → o.waited k = true := by
  have hdone : ∀ k, k < transferCount.toNat → o.accepted k = true ∧ o.finished k = true :=
    fun k hk ↦ Bool.and_eq_true_iff.mp (hfull k hk).1
  have hinit : InitiallyAccepted o transferCount := fun j hj ↦
    (hdone j (Nat.lt_of_lt_of_le hj (Nat.min_le_right _ _))).1
  show (transferred true o txBuf transferCount).status = true ↔ _
  rw [(pipeline_transferred txBuf true hinit).status]
  exact ⟨fun h k hk ↦ (h.2 k hk).1, fun h ↦ ⟨fun k hk ↦ (hdone k hk).1, fun k hk ↦
    ⟨h k hk, (hdone k hk).2⟩⟩⟩

/-! ## When the report is honest -/

/-- The calls of the endpoints for which `send_and_read_bulk` reports what has happened. -/
structure NothingToReport (enabled : Bool) (o : Outcomes) (txBuf rxBuf : List (BitVec 8))
    (transferCount : BitVec 32) : Prop where
  /-- When communication is not enabled, `rx_buf` was empty before. -/
  disabled : enabled = false → rxBuf = []
  /-- Otherwise every transfer delivers a full buffer, -/
  full : enabled = true → ∀ k, k < transferCount.toNat → o.Full k
  /-- and the command is sent, or a wait times out. -/
  sent : enabled = true →
    (canSend enabled txBuf && o.sent) = true ∨ ∃ k, k < transferCount.toNat ∧ o.waited k = false

theorem sendBulk_fst (enabled : Bool) :
    (sendBulk enabled o txBuf).1 = (canSend enabled txBuf && o.sent) := by
  rw [sendBulk]
  cases canSend enabled txBuf <;> rfl

/-- **When the report is honest.** -/
theorem honest_iff (enabled : Bool) (hT : 1 ≤ transferCount.toNat) :
    Honest enabled o txBuf rxBuf transferCount ↔
      NothingToReport enabled o txBuf rxBuf transferCount := by
  cases enabled with
  | false =>
    refine ⟨fun h ↦ ⟨fun _ ↦ h.data, fun h' ↦ ?_, fun h' ↦ ?_⟩,
      fun h ↦ ⟨h.disabled rfl, fun h' ↦ ?_⟩⟩
    all_goals exact absurd h' Bool.false_ne_true
  | true =>
    constructor
    · intro h
      have hfull := (rxBuf_eq_iff hT).mp h.data
      refine ⟨fun h' ↦ absurd h'.symm Bool.false_ne_true, fun _ ↦ hfull, fun _ ↦ ?_⟩
      by_cases hw : ∀ k, k < transferCount.toNat → o.waited k = true
      · refine .inl ?_
        rw [← sendBulk_fst]
        exact (h.flag ((value_iff hfull).mpr hw)).1
      · refine .inr ?_
        simpa using hw
    · intro h
      have hfull := h.full rfl
      refine ⟨(rxBuf_eq_iff hT).mpr hfull, fun hv ↦ ⟨?_, ?_, hfull⟩⟩
      · rw [sendBulk_fst]
        refine (h.sent rfl).resolve_right fun ⟨k, hk, hw⟩ ↦ ?_
        rw [(value_iff hfull).mp hv k hk] at hw
        exact absurd hw.symm Bool.false_ne_true
      · have hinit : InitiallyAccepted o transferCount := fun j hj ↦ by
          have := (hfull j (Nat.lt_of_lt_of_le hj (Nat.min_le_right _ _))).1
          exact (Bool.and_eq_true_iff.mp this).1
        rw [log_sendAndReadBulk.2, (pipeline_transferred txBuf true hinit).finished,
          List.length_map, List.length_range]

/-- When everything goes well the report is honest. -/
theorem honest_allWell : Honest true allWell [] [] 1 :=
  (honest_iff true (by decide)).mpr
    { disabled := fun h ↦ absurd h.symm Bool.false_ne_true
      full := fun _ _ _ ↦ ⟨rfl, List.length_replicate⟩
      sent := fun _ ↦ .inl (by decide) }

/-- Everything goes well, but the transfers are empty. -/
def emptyTransfers : Outcomes :=
  { allWell with data := fun _ ↦ [], data_le := fun _ ↦ Nat.zero_le _ }

/-- **Bytes that were never received are reported.** -/
theorem not_honest_emptyTransfers : ¬ Honest true emptyTransfers [] [] 1 := by
  intro h
  have hfull := (rxBuf_eq_iff (by decide)).mp h.data 0 (by decide)
  exact absurd hfull.2 (Nat.ne_of_lt rxTransferSize_pos)

end Host
end Usb3FpgaCard
