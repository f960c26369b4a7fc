import Usb3FpgaCard.History.Past
import Usb3FpgaCard.Host.Command
import Usb3FpgaCard.Host.Gui
import Usb3FpgaCard.Host.Schedule

/-!
# The link to the card, over any sequence of clicks

Three things of a window say whether there is a link: `communication_enabled`, the two endpoint
pointers, and the device they belong to.  They are changed by different slots: a click on
`btn_select` sets the pointers and may set the flag, which is never reset, and a change of the
device opens it again and leaves the pointers as they were.  `Linked` says what each of them means
for the events so far.

So a transfer aims at endpoints that are gone if the device was opened again after the last select
(`neverStale_iff`), and the assertions, which come before the test of the flag, fail if nothing was
ever selected (`neverAsserts_iff`).
-/

set_option autoImplicit false

namespace Usb3FpgaCard
namespace Host

open Qt History

/-! ## What is asked for -/

/-- The pointer is to an endpoint of this opening. -/
def Current (p : Option Ptr) (opening : ℕ) : Prop := ∃ q, p = some q ∧ q.opening = opening

/-- The call uses an endpoint. -/
def Call.UsesEndpoint : Call → Prop
  | .xferData _ | .beginDataXfer _ _ | .waitForXfer _ | .finishDataXfer _ | .abort => True
  | _ => False

/-- An endpoint is used only while both pointers are to endpoints of the current opening. -/
def Action.Fresh : Action → Prop
  | .call c bulkInEpt bulkOutEpt opening =>
    c.UsesEndpoint → Current bulkInEpt opening ∧ Current bulkOutEpt opening
  | .qAssert _ => True

/-- No assertion fails. -/
def Action.Holds : Action → Prop
  | .qAssert condition => condition = true
  | .call _ _ _ _ => True

/-- No transfer aims at a stale endpoint. -/
def NeverStale (api : CyApi) (devices : List Device) (es : List UiEvent) : Prop :=
  ∀ x ∈ (Window.run api devices es).log, x.Fresh

/-- No assertion fails. -/
def NeverAsserts (api : CyApi) (devices : List Device) (es : List UiEvent) : Prop :=
  ∀ x ∈ (Window.run api devices es).log, x.Holds

/-! ## What matters of the events -/

/-- The endpoint chosen in `cb_in_ept` is found. -/
def Window.FindsIn (w : Window) (api : CyApi) : Prop := (w.endPointOf api w.inEpAddress).isSome

/-- The endpoint chosen in `cb_out_ept` is found. -/
def Window.FindsOut (w : Window) (api : CyApi) : Prop := (w.endPointOf api w.outEpAddress).isSome

instance (w : Window) (api : CyApi) : Decidable (w.FindsIn api) :=
  inferInstanceAs (Decidable (_ = true))

instance (w : Window) (api : CyApi) : Decidable (w.FindsOut api) :=
  inferInstanceAs (Decidable (_ = true))

/-- The event opens the device again: a refresh with a device on the bus, or the choice of another
device. -/
def UiEvent.Reopens (w : Window) : UiEvent → Prop
  | .refresh devices => devices ≠ []
  | .deviceChange i => i < w.cbDevice.items.length ∧ w.cbDevice.index ≠ some i
  | _ => False

/-- The event makes transfers. -/
def UiEvent.Transfers : UiEvent → Prop
  | .gpio _ _ | .start _ _ _ => True
  | _ => False

section events

variable (api : CyApi) (devices : List Device)

/-- A select that finds the OUT endpoint. -/
def SelectsOut (pre : List UiEvent) (e : UiEvent) : Prop :=
  e = .select ∧ (Window.run api devices pre).FindsOut api

/-- A select that finds both endpoints. -/
def SelectsBoth (pre : List UiEvent) (e : UiEvent) : Prop :=
  e = .select ∧ (Window.run api devices pre).FindsIn api ∧ (Window.run api devices pre).FindsOut api

/-- An event that is not a select. -/
def NoSelect (_ : List UiEvent) (e : UiEvent) : Prop := e ≠ .select

/-- An event that leaves the pointers and the device. -/
def Stays (pre : List UiEvent) (e : UiEvent) : Prop :=
  e ≠ .select ∧ ¬ e.Reopens (Window.run api devices pre)

/-- A transfer comes only after a select that has found both endpoints, with the device not opened
again since, unless no select ever has found both. -/
def TransfersFresh (pre : List UiEvent) (e : UiEvent) : Prop :=
  e.Transfers → Once (SelectsBoth api devices) pre →
    Since (Stays api devices) (SelectsBoth api devices) pre

/-- A select comes only when both boxes have a current item, a gpio click only after a last select
that has found the OUT endpoint, and a start, once a select has found both endpoints, only after a
last select that has. -/
def ClicksGuarded (pre : List UiEvent) : UiEvent → Prop
  | .select =>
    (Window.run api devices pre).cbInEpt.index ≠ none ∧
      (Window.run api devices pre).cbOutEpt.index ≠ none
  | .gpio _ _ => Since NoSelect (SelectsOut api devices) pre
  | .start _ _ _ =>
    Once (SelectsBoth api devices) pre → Since NoSelect (SelectsBoth api devices) pre
  | _ => True

end events

/-! ## One event -/

section handle

variable {api : CyApi} {w : Window} {e : UiEvent}

/-- **The slots other than that of `btn_select`** keep the link as it is. -/
theorem keeps_handle (api : CyApi) (he : e ≠ .select) : w.Keeps (w.handle api e) := by
  cases e with
  | refresh devices =>
    have hlist := (relists_getDevices { w with connected := devices }).toKeeps
    exact ⟨hlist.communicationEnabled, hlist.bulkInEpt, hlist.bulkOutEpt, hlist.opening,
      hlist.inItems, hlist.outItems⟩
  | deviceChange i =>
    rw [Window.handle]
    split
    · exact (relists_setCbDevice w _).1.toKeeps
    · exact .refl w
  | inEptChange i =>
    rw [Window.handle]
    split
    · refine ⟨rfl, rfl, rfl, Nat.le_refl _, fun h ↦ ?_, id⟩
      rwa [ComboBox.items_setCurrentIndex]
    · exact .refl w
  | outEptChange i =>
    rw [Window.handle]
    split
    · refine ⟨rfl, rfl, rfl, Nat.le_refl _, id, fun h ↦ ?_⟩
      rwa [ComboBox.items_setCurrentIndex]
    · exact .refl w
  | select => exact absurd rfl he
  | gpio ui o => exact ⟨rfl, rfl, rfl, Nat.le_refl _, id, id⟩
  | start ui v o =>
    rw [Window.handle, Window.onStartBtnClicked]
    split
    · exact ⟨rfl, rfl, rfl, Nat.le_refl _, id, id⟩
    · exact .refl w
  | clear => exact ⟨rfl, rfl, rfl, Nat.le_refl _, id, id⟩

theorem opening_handle_of_reopens (api : CyApi) (h : e.Reopens w) :
    w.selectedDevice.opening < (w.handle api e).selectedDevice.opening := by
  cases e with
  | refresh devices =>
    have hdevices : ({ w with connected := devices } : Window).connected ≠ [] := h
    exact getDevices_opening hdevices
  | deviceChange i =>
    obtain ⟨hi, hne⟩ := h
    rw [Window.handle, if_pos hi, opening_setCbDevice (ComboBox.index_setCurrentIndex hi) hne]
    exact Nat.lt_succ_self _
  | _ => exact h.elim

theorem opening_handle_of_not_reopens (h : ¬ e.Reopens w) :
    (w.handle api e).selectedDevice.opening = w.selectedDevice.opening := by
  cases e with
  | refresh devices =>
    exact congrArg CyDevice.opening (selectedDevice_getDevices (not_not.mp h))
  | deviceChange i =>
    rw [Window.handle]
    split
    · rename_i hi
      have hindex : w.cbDevice.index = some i := by
        by_contra hne
        exact h ⟨hi, hne⟩
      rw [selectedDevice_setCbDevice (.inr ((ComboBox.index_setCurrentIndex hi).trans hindex.symm))]
    · rfl
  | inEptChange | outEptChange =>
    rw [Window.handle]
    split <;> rfl
  | select =>
    rw [Window.handle, Window.onBtnSelectClicked]
    split <;> rfl
  | gpio => rfl
  | start =>
    rw [Window.handle, Window.onStartBtnClicked]
    split <;> rfl
  | clear => rfl

/-- **A click on `btn_select`.** -/
theorem handle_select (api : CyApi) (w : Window) :
    (w.handle api .select).bulkInEpt = w.endPointOf api w.inEpAddress ∧
      (w.handle api .select).bulkOutEpt = w.endPointOf api w.outEpAddress ∧
      (w.handle api .select).selectedDevice = w.selectedDevice ∧
      (w.handle api .select).cbInEpt = w.cbInEpt ∧ (w.handle api .select).cbOutEpt = w.cbOutEpt ∧
      ((w.handle api .select).communicationEnabled = true ↔
        w.communicationEnabled = true ∨ (w.FindsIn api ∧ w.FindsOut api)) := by
  have hfinds : ((w.selectEndpoints api).bulkOutEpt.isSome &&
      (w.selectEndpoints api).bulkInEpt.isSome) = true ↔ w.FindsIn api ∧ w.FindsOut api := by
    rw [Bool.and_eq_true, and_comm]
    rfl
  rw [Window.handle, Window.onBtnSelectClicked]
  split
  · rename_i h
    exact ⟨rfl, rfl, rfl, rfl, rfl, iff_of_true rfl (.inr (hfinds.mp h))⟩
  · rename_i h
    refine ⟨rfl, rfl, rfl, rfl, rfl, ?_⟩
    rw [or_iff_left fun hf ↦ h (hfinds.mpr hf)]
    rfl

/-- A pointer that was just obtained is current. -/
theorem current_endPointOf {address : Option ℤ} :
    Current (w.endPointOf api address) w.selectedDevice.opening ↔
      (w.endPointOf api address).isSome := by
  rw [Option.isSome_iff_exists]
  exact ⟨fun ⟨p, hp, _⟩ ↦ ⟨p, hp⟩, fun ⟨p, hp⟩ ↦ ⟨p, hp, opening_of_endPointOf hp⟩⟩

end handle

/-! ## The link after any events -/

/-- What the window knows of the link, and what it means. -/
structure Linked (api : CyApi) (devices : List Device) (es : List UiEvent) (w : Window) : Prop where
  /-- `communication_enabled`: some select has found both endpoints. -/
  enabled : w.communicationEnabled = true ↔ Once (SelectsBoth api devices) es
  /-- The pointers are current if that was the last select, and the device is still open. -/
  current : Current w.bulkInEpt w.selectedDevice.opening ∧
      Current w.bulkOutEpt w.selectedDevice.opening ↔
    Since (Stays api devices) (SelectsBoth api devices) es
  /-- Both pointers are set if it was the last select. -/
  both : w.bulkInEpt.isSome ∧ w.bulkOutEpt.isSome ↔ Since NoSelect (SelectsBoth api devices) es
  /-- The OUT pointer is set if the last select has found that endpoint. -/
  out : w.bulkOutEpt.isSome = true ↔ Since NoSelect (SelectsOut api devices) es
  /-- No pointer is newer than the device. -/
  opening : ∀ p, w.bulkInEpt = some p → p.opening ≤ w.selectedDevice.opening
  /-- The items of the boxes are made for endpoints. -/
  inItems : ∀ t ∈ w.cbInEpt.items, Listed t
  outItems : ∀ t ∈ w.cbOutEpt.items, Listed t

section linked

variable {api : CyApi} {devices : List Device} {es : List UiEvent} {e : UiEvent} {w : Window}

theorem linked_construct (api : CyApi) (devices : List Device) :
    Linked api devices [] (Window.construct devices) := by
  have hlist := relists_construct devices
  have hin : (Window.construct devices).bulkInEpt = none := hlist.bulkInEpt
  have hout : (Window.construct devices).bulkOutEpt = none := hlist.bulkOutEpt
  refine ⟨iff_of_false ?_ not_once_nil, iff_of_false ?_ not_since_nil,
    iff_of_false ?_ not_since_nil, iff_of_false ?_ not_since_nil, ?_, ?_, ?_⟩
  · exact Bool.eq_false_iff.mp hlist.communicationEnabled
  · rintro ⟨⟨p, hp, -⟩, -⟩
    exact Option.some_ne_none p (hp.symm.trans hin)
  · rw [hin]
    exact fun h ↦ Bool.false_ne_true h.1
  · rw [hout]
    exact Bool.false_ne_true
  · rw [hin]
    exact nofun
  · exact hlist.inItems fun t ht ↦ absurd ht List.not_mem_nil
  · exact hlist.outItems fun t ht ↦ absurd ht List.not_mem_nil

/-- **A select.** -/
theorem Linked.select (h : Linked api devices es (Window.run api devices es)) :
    Linked api devices (es ++ [.select]) ((Window.run api devices es).handle api .select) := by
  obtain ⟨hin, hout, hdevice, hcbIn, hcbOut, henabled⟩ :=
    handle_select api (Window.run api devices es)
  have hboth : SelectsBoth api devices es .select ↔
      (Window.run api devices es).FindsIn api ∧ (Window.run api devices es).FindsOut api :=
    and_iff_right rfl
  refine ⟨?_, ?_, ?_, ?_, fun p hp ↦ ?_, ?_, ?_⟩
  · rw [henabled, once_concat, hboth, h.enabled]
  · rw [hin, hout, hdevice, current_endPointOf, current_endPointOf, since_concat, hboth]
    exact (or_iff_left fun hs ↦ hs.2.1 rfl).symm
  · rw [hin, hout, since_concat, hboth]
    exact (or_iff_left fun hs ↦ hs.2 rfl).symm
  · rw [hout, since_concat, SelectsOut, and_iff_right rfl]
    exact (or_iff_left fun hs ↦ hs.2 rfl).symm
  · rw [hin] at hp
    rw [hdevice, opening_of_endPointOf hp]
  · rw [hcbIn]
    exact h.inItems
  · rw [hcbOut]
    exact h.outItems

/-- **Any other event.** -/
theorem Linked.other (h : Linked api devices es (Window.run api devices es)) (he : e ≠ .select) :
    Linked api devices (es ++ [e]) ((Window.run api devices es).handle api e) := by
  have hkeeps := keeps_handle (w := Window.run api devices es) api he
  have hboth : ¬ SelectsBoth api devices es e := fun hs ↦ he hs.1
  refine ⟨?_, ?_, ?_, ?_, fun p hp ↦ ?_, hkeeps.inItems h.inItems, hkeeps.outItems h.outItems⟩
  · rw [hkeeps.communicationEnabled, once_concat, or_iff_left hboth, h.enabled]
  · rw [hkeeps.bulkInEpt, hkeeps.bulkOutEpt, since_concat, or_iff_right hboth, ← h.current]
    by_cases hreopens : e.Reopens (Window.run api devices es)
    · -- what was current before is older now
      refine iff_of_false ?_ fun hs ↦ hs.2.2 hreopens
      rintro ⟨⟨p, hp, hopening⟩, -⟩
      have hlt := opening_handle_of_reopens api hreopens
      exact absurd (h.opening p hp) (Nat.not_le_of_lt (hopening ▸ hlt))
    · rw [opening_handle_of_not_reopens hreopens]
      exact (and_iff_left ⟨he, hreopens⟩).symm
  · rw [hkeeps.bulkInEpt, hkeeps.bulkOutEpt, since_concat, or_iff_right hboth, h.both]
    exact (and_iff_left he).symm
  · rw [hkeeps.bulkOutEpt, since_concat, or_iff_right fun hs ↦ he hs.1, h.out]
    exact (and_iff_left he).symm
  · rw [hkeeps.bulkInEpt] at hp
    exact Nat.le_trans (h.opening p hp) hkeeps.opening

/-- **The link after any events.** -/
theorem linked (api : CyApi) (devices : List Device) (es : List UiEvent) :
    Linked api devices es (Window.run api devices es) := by
  induction es using List.reverseRecOn with
  | nil => exact linked_construct api devices
  | append_singleton es e ih =>
    have hrun : Window.run api devices (es ++ [e]) = (Window.run api devices es).handle api e := by
      rw [Window.run, List.foldl_append]
      rfl
    rw [hrun]
    by_cases he : e = .select
    · subst he
      exact ih.select
    · exact ih.other he

end linked

/-! ## What an event does -/

/-- What is recorded of an event. -/
def Window.actions (w : Window) : UiEvent → List Action
  | .select => [.qAssert w.inEpAddress.isSome, .qAssert w.outEpAddress.isSome]
  | .gpio ui o => w.sendBulkActions o (padButton 0 (populateHeader ui [] 0))
  | .start ui v o =>
    if w.communicationEnabled then
      w.sendAndReadBulkActions o (populateHeader ui [] (BitVec.ofNat 32 (v * 8)))
        (BitVec.ofNat 32 v)
    else []
  | _ => []

section actions

variable {api : CyApi} {devices : List Device} {es : List UiEvent} {e : UiEvent} {w : Window}

theorem log_handle : (w.handle api e).log = w.log ++ w.actions e := by
  cases e with
  | refresh devices =>
    rw [Window.handle, (relists_getDevices _).log]
    exact (List.append_nil _).symm
  | deviceChange i =>
    rw [Window.handle]
    refine Eq.trans ?_ (List.append_nil _).symm
    split
    · exact (relists_setCbDevice w _).1.log
    · rfl
  | inEptChange | outEptChange =>
    rw [Window.handle]
    refine Eq.trans ?_ (List.append_nil _).symm
    split <;> rfl
  | select =>
    rw [Window.handle, Window.onBtnSelectClicked]
    split <;> rfl
  | gpio => rfl
  | start ui v o =>
    rw [Window.handle, Window.onStartBtnClicked, Window.actions]
    split
    · rfl
    · exact (List.append_nil _).symm
  | clear => exact (List.append_nil _).symm

/-- What holds of all that is recorded, with one more event. -/
theorem forall_log_concat {P : Action → Prop} (es : List UiEvent) (e : UiEvent) :
    (∀ x ∈ (Window.run api devices (es ++ [e])).log, P x) ↔
      (∀ x ∈ (Window.run api devices es).log, P x) ∧
        ∀ x ∈ (Window.run api devices es).actions e, P x := by
  have hlog : (Window.run api devices (es ++ [e])).log =
      (Window.run api devices es).log ++ (Window.run api devices es).actions e := by
    rw [Window.run, List.foldl_append]
    exact log_handle
  rw [hlog, List.forall_mem_append]

/-- The buffer of `handle_button` fits. -/
theorem length_padButton_le (i : ℕ) (newData : List (BitVec 8)) (h : newData.length ≤ 256) :
    (padButton i newData).length ≤ 256 := by
  fun_induction padButton with
  | case1 i newData hi ih =>
    refine ih ?_
    rw [List.length_append, List.length_singleton]
    omega
  | case2 => exact h

theorem sendBulk_eq (enabled : Bool) (o : Outcomes) {txBuf : List (BitVec 8)}
    (h : txBuf.length ≤ 256) :
    (Host.sendBulk enabled o txBuf).2 = if enabled then [.xferData (outBuf txBuf)] else [] := by
  have hfits : txBuf.length ≤ txTransferSize := Nat.le_trans h (by decide)
  rw [Host.sendBulk, canSend, decide_eq_true hfits, Bool.and_true]
  split <;> rfl

/-- What `send_and_read_bulk` does when communication is enabled: the two assertions and its
calls. -/
theorem mem_sendAndReadBulkActions {o : Outcomes} {txBuf : List (BitVec 8)}
    {transferCount : BitVec 32} (h : w.communicationEnabled = true) {x : Action} :
    x ∈ w.sendAndReadBulkActions o txBuf transferCount ↔
      x = .qAssert w.bulkInEpt.isSome ∨ x = .qAssert w.bulkOutEpt.isSome ∨
        ∃ c ∈ (Host.sendAndReadBulk true o txBuf w.dataBuffer transferCount).log,
          w.action c = x := by
  have hlog : ∀ n (l : List Call), (∃ c ∈ l, w.action c = x) ↔
      (∃ c ∈ l.take n, w.action c = x) ∨ ∃ c ∈ l.drop n, w.action c = x := by
    intro n l
    rw [← exists_or]
    refine exists_congr fun c ↦ ?_
    rw [← or_and_right, ← List.mem_append, List.take_append_drop]
  rw [Window.sendAndReadBulkActions, h, if_pos rfl, List.mem_cons, List.mem_append, List.mem_cons,
    List.mem_map, List.mem_map,
    hlog ((Run.start o transferCount).submitAll o transferCount).log.length
      (Host.sendAndReadBulk true o txBuf w.dataBuffer transferCount).log]
  exact or_congr_right or_left_comm

/-- What holds of all that a start does. -/
theorem forall_actions_start {P : Action → Prop} {ui : Ui} {v : ℕ} {o : Outcomes} :
    (∀ x ∈ w.actions (.start ui v o), P x) ↔
      (w.communicationEnabled = true →
        P (.qAssert w.bulkInEpt.isSome) ∧ P (.qAssert w.bulkOutEpt.isSome) ∧
          ∀ c ∈ (Host.sendAndReadBulk true o (populateHeader ui [] (BitVec.ofNat 32 (v * 8)))
            w.dataBuffer (BitVec.ofNat 32 v)).log, P (w.action c)) := by
  rw [Window.actions]
  cases henabled : w.communicationEnabled with
  | false => exact iff_of_true (fun x hx ↦ absurd hx List.not_mem_nil) nofun
  | true =>
    rw [if_pos rfl, imp_iff_right rfl]
    simp only [mem_sendAndReadBulkActions henabled]
    constructor
    · exact fun h ↦ ⟨h _ (.inl rfl), h _ (.inr (.inl rfl)), fun c hc ↦
        h _ (.inr (.inr ⟨c, hc, rfl⟩))⟩
    · rintro ⟨hin, hout, hcalls⟩ x (rfl | rfl | ⟨c, hc, rfl⟩)
      · exact hin
      · exact hout
      · exact hcalls c hc

/-- **The calls of an event** are made if communication is enabled. -/
theorem forall_fresh_actions :
    (∀ x ∈ w.actions e, x.Fresh) ↔
      (e.Transfers → w.communicationEnabled = true →
        Current w.bulkInEpt w.selectedDevice.opening ∧
          Current w.bulkOutEpt w.selectedDevice.opening) := by
  cases e with
  | select =>
    refine iff_of_true (fun x hx ↦ ?_) nofun
    rcases List.mem_pair.mp hx with rfl | rfl <;> trivial
  | gpio ui o =>
    have hlength := length_padButton_le 0 (populateHeader ui [] 0) (show 20 ≤ 256 by decide)
    rw [Window.actions, Window.sendBulkActions, sendBulk_eq _ _ hlength]
    cases w.communicationEnabled with
    | false => exact iff_of_true (fun x hx ↦ by rw [List.mem_singleton.mp hx]; trivial) nofun
    | true =>
      rw [if_pos rfl, List.map_singleton, List.forall_mem_cons, List.forall_mem_singleton]
      exact ⟨fun h _ _ ↦ h.2 trivial, fun h ↦ ⟨trivial, fun _ ↦ h trivial rfl⟩⟩
  | start ui v o =>
    rw [forall_actions_start]
    constructor
    · intro h _ henabled
      -- whatever happens, `Abort` is called at the end
      refine (h henabled).2.2 .abort ?_ trivial
      rw [log_eq]
      exact List.mem_append_right _ List.mem_cons_self
    · exact fun h henabled ↦ ⟨trivial, trivial, fun c _ _ ↦ h trivial henabled⟩
  | _ => exact iff_of_true (fun x hx ↦ absurd hx List.not_mem_nil) nofun

/-- The address of a box can be read exactly if it has a current item. -/
theorem isSome_toInt_currentText {b : ComboBox} (h : ∀ t ∈ b.items, Listed t) :
    (toInt (right b.currentText 4)).isSome = true ↔ b.index ≠ none := by
  cases hi : b.index with
  | none =>
    rw [ComboBox.currentText_of_index_eq_none hi]
    exact iff_of_false Bool.false_ne_true fun hn ↦ hn rfl
  | some i =>
    obtain ⟨alt, ept, ht⟩ := h _ (ComboBox.currentText_mem hi)
    rw [ht, toInt_right_itemText]
    exact iff_of_true rfl nofun

/-- **The assertions of an event.** -/
theorem forall_holds_actions (hin : ∀ t ∈ w.cbInEpt.items, Listed t)
    (hout : ∀ t ∈ w.cbOutEpt.items, Listed t) :
    (∀ x ∈ w.actions e, x.Holds) ↔
      match e with
      | .select => w.cbInEpt.index ≠ none ∧ w.cbOutEpt.index ≠ none
      | .gpio _ _ => w.bulkOutEpt.isSome = true
      | .start _ _ _ =>
        w.communicationEnabled = true → w.bulkInEpt.isSome = true ∧ w.bulkOutEpt.isSome = true
      | _ => True := by
  cases e with
  | select =>
    rw [Window.actions, List.forall_mem_cons, List.forall_mem_singleton]
    exact and_congr (isSome_toInt_currentText hin) (isSome_toInt_currentText hout)
  | gpio ui o =>
    rw [Window.actions, Window.sendBulkActions, List.forall_mem_cons]
    refine and_iff_left fun x hx ↦ ?_
    obtain ⟨c, -, rfl⟩ := List.mem_map.mp hx
    trivial
  | start ui v o =>
    rw [forall_actions_start]
    constructor
    · exact fun h henabled ↦ ⟨(h henabled).1, (h henabled).2.1⟩
    · exact fun h henabled ↦ ⟨(h henabled).1, (h henabled).2, fun c _ ↦ trivial⟩
  | _ => exact iff_of_true (fun x hx ↦ absurd hx List.not_mem_nil) trivial

end actions

/-! ## Runs -/

section runs

variable (api : CyApi) (devices : List Device) (es : List UiEvent)

/-- What holds of all that is recorded in a run, by what each event records. -/
theorem forall_log_iff {P : Action → Prop} {R : List UiEvent → UiEvent → Prop}
    (h : ∀ es e, (∀ x ∈ (Window.run api devices es).actions e, P x) ↔ R es e) :
    (∀ x ∈ (Window.run api devices es).log, P x) ↔ Always R es := by
  refine iff_always (A := fun es ↦ ∀ x ∈ (Window.run api devices es).log, P x) (fun x hx ↦ ?_)
    fun es e ↦ ?_
  · rw [Window.run, List.foldl_nil, (relists_construct devices).log] at hx
    exact absurd hx List.not_mem_nil
  · rw [forall_log_concat, h]

/-- **When no transfer aims at a stale endpoint.** -/
theorem neverStale_iff : NeverStale api devices es ↔ Always (TransfersFresh api devices) es := by
  refine forall_log_iff api devices es fun es e ↦ ?_
  have hlinked := linked api devices es
  rw [forall_fresh_actions, hlinked.enabled, hlinked.current]
  rfl

/-- **When no assertion fails.** -/
theorem neverAsserts_iff : NeverAsserts api devices es ↔ Always (ClicksGuarded api devices) es := by
  refine forall_log_iff api devices es fun es e ↦ ?_
  have hlinked := linked api devices es
  rw [forall_holds_actions hlinked.inItems hlinked.outItems, hlinked.enabled, hlinked.both,
    hlinked.out]
  cases e <;> rfl

end runs

/-- A card with its two bulk endpoints. -/
def card : Device where
  vendorID := 0x04b4
  productID := 0x00f1
  friendlyName := "FX3".toList
  settings := [[⟨0x01, 2, false⟩, ⟨0x81, 2, true⟩]]

/-- **Select, refresh, start**: the refresh opens the card again, and the transfers go to the
endpoints of the opening before. -/
theorem not_neverStale_refresh : ¬ NeverStale (.preferring controlEndPt) [card]
    [.select, .refresh [card], .start firstUi 1 allWell] := by
  intro h
  have hlinked := linked (.preferring controlEndPt) [card] [.select, .refresh [card]]
  have hstart := ((forall_log_concat [.select, .refresh [card]] (.start firstUi 1 allWell)).mp h).2
  have henabled : Once (SelectsBoth (.preferring controlEndPt) [card]) [.select, .refresh [card]] :=
    ⟨[], .select, [.refresh [card]], rfl, rfl, by decide +kernel, by decide +kernel⟩
  have hcurrent := hlinked.current.mp
    (forall_fresh_actions.mp hstart trivial (hlinked.enabled.mpr henabled))
  have hsince : Since (Stays (.preferring controlEndPt) [card])
      (SelectsBoth (.preferring controlEndPt) [card]) ([.select] ++ [.refresh [card]]) := hcurrent
  rcases since_concat.mp hsince with hselect | ⟨-, hstays⟩
  · exact nomatch hselect.1
  · exact hstays.2 (List.cons_ne_nil _ _)

/-- **A gpio button without a device**: no endpoint was ever selected. -/
theorem not_neverAsserts_gpio :
    ¬ NeverAsserts (.preferring controlEndPt) [] [.gpio firstUi allWell] := by
  intro h
  have hlinked := linked (.preferring controlEndPt) [] []
  have hgpio := ((forall_log_concat [] (.gpio firstUi allWell)).mp h).2
  have hset := (forall_holds_actions hlinked.inItems hlinked.outItems).mp hgpio
  exact not_since_nil (hlinked.out.mp hset)

end Host
end Usb3FpgaCard
