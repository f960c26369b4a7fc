import Usb3FpgaCard.Host.Devices
import Usb3FpgaCard.Host.Plot

/-!
# Choosing endpoints: `get_endpoint_for_device` and `select_endpoints`

`Window` is the state of the main window.  `get_endpoint_for_device` goes through the alternate
settings of the device and lists their bulk endpoints, and `select_endpoints` looks the chosen
addresses up in the setting that is current, which is the last one.  So a choice is what it says
only if it is from the last setting, and if no other endpoint there has its address
(`selectsShown_iff`).
-/

set_option autoImplicit false

namespace Usb3FpgaCard
namespace Host

open Qt

/-! ## The window -/

/-- What the window does that matters outside. -/
inductive Action where
  /-- `Q_ASSERT`, with the value of its condition. -/
  | qAssert (condition : Bool)
  /-- A call of `send_bulk` or `send_and_read_bulk`, made with these endpoints during this opening
  of the device. -/
  | call (call : Call) (bulkInEpt bulkOutEpt : Option Ptr) (opening : ℕ)

/-- The main window. -/
structure Window where
  /-- The devices on the bus. -/
  connected : List Device
  selectedDevice : CyDevice
  communicationEnabled : Bool
  bulkInEpt : Option Ptr
  bulkOutEpt : Option Ptr
  dataBuffer : List (BitVec 8)
  plot : Plot
  cbDevice : ComboBox
  cbInEpt : ComboBox
  cbOutEpt : ComboBox
  /-- Everything it has done. -/
  log : List Action

/-! ## Listing endpoints -/

/-- `Attributes == 2`. -/
def Endpoint.bulk (ept : Endpoint) : Bool := ept.attributes == 2

/-- `if (box->count() > 0) box->setCurrentIndex(0)`. -/
def firstIfAny (box : ComboBox) : ComboBox :=
  if 0 < box.items.length then box.setCurrentIndex 0 else box

namespace Window

variable (w : Window)

/-- One endpoint: if it is a bulk endpoint, it gets an item. -/
def addEndpoint (alt : ℕ) (ept : Endpoint) : Window :=
  if ept.bulk then
    if ept.bIn then { w with cbInEpt := w.cbInEpt.addItem (itemText alt ept) }
    else { w with cbOutEpt := w.cbOutEpt.addItem (itemText alt ept) }
  else w

/-- One alternate setting. -/
def listAltIntfc (alt : ℕ) : Window :=
  let w := { w with selectedDevice := w.selectedDevice.setAltIntfc alt }
  w.selectedDevice.endPoints.foldl (fun w ept ↦ w.addEndpoint alt ept) w

/-- `MainWindow::get_endpoint_for_device` and its result. -/
def getEndpointForDevice : Window × Bool :=
  let w := { w with cbInEpt := .empty, cbOutEpt := .empty }
  match w.cbDevice.index with
  | none => (w, false)
  | some nDeviceIndex =>
    let w := { w with selectedDevice := w.selectedDevice.openDevice w.connected nDeviceIndex }
    let w := (List.range w.selectedDevice.interfaces).foldl listAltIntfc w
    let w := { w with cbInEpt := firstIfAny w.cbInEpt, cbOutEpt := firstIfAny w.cbOutEpt }
    (w, decide (0 < w.cbInEpt.items.length) && decide (0 < w.cbOutEpt.items.length))

/-! ## Selecting endpoints -/

/-- `inEpAddress` as it is read, `none` if `ok` is false. -/
def inEpAddress : Option ℤ := toInt (right w.cbInEpt.currentText 4)

/-- `outEpAddress` as it is read. -/
def outEpAddress : Option ℤ := toInt (right w.cbOutEpt.currentText 4)

/-- The endpoint for an address that was read, which is 0 if none was. -/
def endPointOf (api : CyApi) (address : Option ℤ) : Option Ptr :=
  w.selectedDevice.endPointOf api (BitVec.ofInt 8 (address.getD 0))

/-- `MainWindow::select_endpoints`. -/
def selectEndpoints (api : CyApi) : Window :=
  { w with
    bulkInEpt := w.endPointOf api w.inEpAddress
    bulkOutEpt := w.endPointOf api w.outEpAddress
    log := w.log ++ [.qAssert w.inEpAddress.isSome, .qAssert w.outEpAddress.isSome] }

end Window

/-! ## What is listed -/

/-- The bulk endpoints of one direction, in the order of their items. -/
def Device.choices (d : Device) (bIn : Bool) : List (ℕ × Endpoint) :=
  (List.range d.interfaces).flatMap fun alt ↦
    ((d.setting alt).filter fun e ↦ e.bulk && e.bIn == bIn).map (alt, ·)

theorem mem_choices {d : Device} {bIn : Bool} {alt : ℕ} {e : Endpoint}
    (h : (alt, e) ∈ d.choices bIn) : e ∈ d.setting alt ∧ e.attributes = 2 ∧ e.bIn = bIn := by
  obtain ⟨alt, -, hmem⟩ := List.mem_flatMap.mp h
  obtain ⟨e, he, heq⟩ := List.mem_map.mp hmem
  obtain ⟨hsetting, hbulk⟩ := List.mem_filter.mp he
  cases heq
  rw [Bool.and_eq_true, Endpoint.bulk, beq_iff_eq, beq_iff_eq] at hbulk
  exact ⟨hsetting, hbulk⟩

/-- The texts of some endpoints. -/
def itemTexts (l : List (ℕ × Endpoint)) : List Text := l.map fun c ↦ itemText c.1 c.2

section listing

variable {w : Window} {d : Device}

/-- A window with more items. -/
def Window.addItems (w : Window) (ins outs : List (ℕ × Endpoint)) : Window :=
  { w with
    cbInEpt := (itemTexts ins).foldl ComboBox.addItem w.cbInEpt
    cbOutEpt := (itemTexts outs).foldl ComboBox.addItem w.cbOutEpt }

theorem Window.addItems_addItems (ins outs ins' outs' : List (ℕ × Endpoint)) :
    (w.addItems ins outs).addItems ins' outs' = w.addItems (ins ++ ins') (outs ++ outs') := by
  simp [Window.addItems, itemTexts, List.foldl_append]

/-- The items of one setting. -/
theorem foldl_addEndpoint (alt : ℕ) (l : List Endpoint) :
    l.foldl (fun w ept ↦ w.addEndpoint alt ept) w =
      w.addItems ((l.filter fun e ↦ e.bulk && e.bIn == true).map (alt, ·))
        ((l.filter fun e ↦ e.bulk && e.bIn == false).map (alt, ·)) := by
  induction l generalizing w with
  | nil => rfl
  | cons e l ih =>
    rw [List.foldl_cons, ih, Window.addEndpoint, List.filter_cons, List.filter_cons]
    cases hbulk : e.bulk with
    | false => rfl
    | true => cases hin : e.bIn <;> rfl

/-- The items of all settings. -/
theorem foldl_listAltIntfc (hd : w.selectedDevice.device = some d)
    (halt : w.selectedDevice.alt = 0) (n : ℕ) :
    (List.range n).foldl Window.listAltIntfc w =
      { w.addItems
          ((List.range n).flatMap fun alt ↦
            ((d.setting alt).filter fun e ↦ e.bulk && e.bIn == true).map (alt, ·))
          ((List.range n).flatMap fun alt ↦
            ((d.setting alt).filter fun e ↦ e.bulk && e.bIn == false).map (alt, ·)) with
        selectedDevice := w.selectedDevice.setAltIntfc (n - 1) } := by
  induction n with
  | zero =>
    have hdevice : w.selectedDevice.setAltIntfc (0 - 1) = w.selectedDevice := by
      rw [Nat.zero_sub, ← halt]
      rfl
    rw [hdevice]
    rfl
  | succ n ih =>
    rw [List.range_succ, List.foldl_append, ih, List.flatMap_append, List.flatMap_append,
      ← Window.addItems_addItems, List.foldl_cons, List.foldl_nil, Window.listAltIntfc,
      foldl_addEndpoint, Nat.succ_sub_one, List.flatMap_singleton,
      List.flatMap_singleton]
    simp only [CyDevice.endPoints, CyDevice.setAltIntfc, hd, Option.map_some, Option.getD_some]
    rfl

theorem items_firstIfAny (box : ComboBox) : (firstIfAny box).items = box.items := by
  rw [firstIfAny]
  split
  · exact ComboBox.items_setCurrentIndex
  · rfl

/-- What `get_endpoint_for_device` changes when there is a current device. -/
theorem getEndpointForDevice_eq {i : ℕ} (hi : w.cbDevice.index = some i) :
    ∃ ins outs alt,
      w.getEndpointForDevice.1 =
        { w with
          selectedDevice := (w.selectedDevice.openDevice w.connected i).setAltIntfc alt
          cbInEpt := firstIfAny ((itemTexts ins).foldl ComboBox.addItem .empty)
          cbOutEpt := firstIfAny ((itemTexts outs).foldl ComboBox.addItem .empty) } ∧
      ∀ d, w.connected[i]? = some d →
        ins = d.choices true ∧ outs = d.choices false ∧ alt = d.interfaces - 1 := by
  rw [Window.getEndpointForDevice]
  simp only [hi]
  cases hd : w.connected[i]? with
  | none =>
    refine ⟨[], [], 0, ?_, nofun⟩
    have hinterfaces : (w.selectedDevice.openDevice w.connected i).interfaces = 0 := by
      rw [CyDevice.interfaces, CyDevice.openDevice, hd]
      rfl
    rw [hinterfaces]
    rfl
  | some d =>
    refine ⟨d.choices true, d.choices false, d.interfaces - 1, ?_, fun d' h ↦ ?_⟩
    · have hinterfaces : (w.selectedDevice.openDevice w.connected i).interfaces = d.interfaces := by
        rw [CyDevice.interfaces, CyDevice.openDevice, hd]
        rfl
      rw [hinterfaces, foldl_listAltIntfc hd rfl]
      rfl
    · cases h
      exact ⟨rfl, rfl, rfl⟩

/-- The window shows this device. -/
def Window.Selects (w : Window) (d : Device) : Prop :=
  ∃ i, w.cbDevice.index = some i ∧ w.connected[i]? = some d

/-- **`get_endpoint_for_device`** lists the choices, and leaves the last setting current. -/
theorem getEndpointForDevice_of_selects (h : w.Selects d) :
    w.getEndpointForDevice.1.cbInEpt.items = itemTexts (d.choices true) ∧
      w.getEndpointForDevice.1.cbOutEpt.items = itemTexts (d.choices false) ∧
      w.getEndpointForDevice.1.selectedDevice =
        ⟨w.selectedDevice.opening + 1, some d, d.interfaces - 1⟩ := by
  obtain ⟨i, hi, hd⟩ := h
  obtain ⟨ins, outs, alt, heq, hchoices⟩ := getEndpointForDevice_eq hi
  obtain ⟨rfl, rfl, rfl⟩ := hchoices d hd
  rw [heq, ← hd]
  refine ⟨?_, ?_, rfl⟩
  · rw [items_firstIfAny, ComboBox.items_foldl_addItem]
    rfl
  · rw [items_firstIfAny, ComboBox.items_foldl_addItem]
    rfl

end listing

/-! ## The endpoint that is shown -/

/-- The pointer is to the bulk endpoint of a device that a text describes. -/
structure Ptr.Described (p : Ptr) (d : Device) (t : Text) : Prop where
  mem : p.endpoint ∈ d.setting p.alt
  bulk : p.endpoint.attributes = 2
  text : itemText p.alt p.endpoint = t

/-- The user picks an item in each box. -/
def Window.pick (w : Window) (m n : ℕ) : Window :=
  { w with cbInEpt := w.cbInEpt.setCurrentIndex m, cbOutEpt := w.cbOutEpt.setCurrentIndex n }

/-- `select_endpoints` leaves the endpoints that are shown. -/
structure Window.Selected (w : Window) (d : Device) (api : CyApi) : Prop where
  bulkIn : ∃ p, (w.selectEndpoints api).bulkInEpt = some p ∧ p.Described d w.cbInEpt.currentText
  bulkOut : ∃ p, (w.selectEndpoints api).bulkOutEpt = some p ∧ p.Described d w.cbOutEpt.currentText

/-- Picking items `m` and `n` of a device selects what is shown, in any window and whatever
`EndPointOf` finds. -/
def SelectsShown (d : Device) (m n : ℕ) : Prop :=
  ∀ (api : CyApi) (w : Window), w.Selects d → (w.getEndpointForDevice.1.pick m n).Selected d api

/-- A choice that is found again: it is from the last setting, and it is the only endpoint there
that has its address. -/
structure Device.Resolves (d : Device) (c : ℕ × Endpoint) : Prop where
  last : c.1 = d.interfaces - 1
  only : ∀ e ∈ controlEndPt :: d.setting c.1, e.address = c.2.address → e = c.2

section selecting

variable {d : Device} {api : CyApi} {w : Window} {c c' : ℕ × Endpoint} {bIn : Bool} {m n : ℕ}

/-- What `EndPointOf` finds for a choice is what the choice says. -/
def Device.Finds (d : Device) (api : CyApi) (c : ℕ × Endpoint) : Prop :=
  ∃ e, api.endPointOf (d.setting (d.interfaces - 1)) c.2.address = some e ∧
    e ∈ d.setting (d.interfaces - 1) ∧ e.attributes = 2 ∧
    itemText (d.interfaces - 1) e = itemText c.1 c.2

/-- `EndPointOf` that prefers an endpoint. -/
def CyApi.preferring (e : Endpoint) : CyApi where
  endPointOf setting addr :=
    if e.address = addr ∧ e ∈ controlEndPt :: setting then some e
    else setting.find? fun e ↦ e.address == addr
  found setting addr e' h := by
    split at h
    · rename_i hprefer
      cases h
      exact hprefer
    · have haddr := List.find?_some h
      exact ⟨beq_iff_eq.mp haddr, List.mem_cons_of_mem _ (List.mem_of_find?_eq_some h)⟩
  complete setting addr h := by
    split
    · rfl
    · obtain ⟨e', he', haddr⟩ := h
      exact List.find?_isSome.mpr ⟨e', he', beq_iff_eq.mpr haddr⟩

theorem endPointOf_preferring {e : Endpoint} {setting : List Endpoint} {addr : BitVec 8}
    (haddr : e.address = addr) (hmem : e ∈ controlEndPt :: setting) :
    (CyApi.preferring e).endPointOf setting addr = some e := if_pos ⟨haddr, hmem⟩

/-- **A choice is found whatever `EndPointOf` does** exactly if it is found again. -/
theorem finds_iff (hc : c ∈ d.choices bIn) : (∀ api, d.Finds api c) ↔ d.Resolves c := by
  obtain ⟨hmem, hbulk, -⟩ := mem_choices hc
  constructor
  · intro h
    have hsame : ∀ e, e.attributes = 2 → itemText (d.interfaces - 1) e = itemText c.1 c.2 →
        d.interfaces - 1 = c.1 ∧ e = c.2 := fun e he ht ↦ itemText_inj he hbulk ht
    have hlast : c.1 = d.interfaces - 1 := by
      obtain ⟨e, -, -, he, ht⟩ := h (.preferring c.2)
      exact (hsame e he ht).1.symm
    refine ⟨hlast, fun e hmem' haddr ↦ ?_⟩
    obtain ⟨e', hfound, -, he', ht⟩ := h (.preferring e)
    rw [endPointOf_preferring haddr (hlast ▸ hmem'), Option.some_inj] at hfound
    exact hfound ▸ (hsame e' he' ht).2
  · intro h api
    obtain ⟨e, he⟩ := Option.isSome_iff_exists.mp
      (api.complete (d.setting (d.interfaces - 1)) c.2.address ⟨c.2, h.last ▸ hmem, rfl⟩)
    obtain ⟨haddr, hmem'⟩ := api.found _ _ _ he
    obtain rfl : e = c.2 := h.only e (h.last ▸ hmem') haddr
    exact ⟨c.2, he, h.last ▸ hmem, hbulk, by rw [h.last]⟩

/-- The pointer for the text of a choice. -/
theorem described_iff (api : CyApi) (hdevice : w.selectedDevice.device = some d)
    (halt : w.selectedDevice.alt = d.interfaces - 1) {t : Text} (ht : t = itemText c.1 c.2) :
    (∃ p, w.endPointOf api (toInt (right t 4)) = some p ∧ p.Described d t) ↔ d.Finds api c := by
  have haddr : BitVec.ofInt 8 ((toInt (right t 4)).getD 0) = c.2.address := by
    rw [ht, toInt_right_itemText, Option.getD_some, BitVec.ofInt_natCast, BitVec.ofNat_toNat,
      BitVec.setWidth_eq]
  rw [Window.endPointOf, CyDevice.endPointOf, haddr, hdevice, Option.bind_some, halt, ht]
  constructor
  · rintro ⟨p, hp, hmem, hbulk, htext⟩
    obtain ⟨e, he, rfl⟩ := Option.map_eq_some_iff.mp hp
    exact ⟨e, he, hmem, hbulk, htext⟩
  · rintro ⟨e, he, hmem, hbulk, htext⟩
    exact ⟨_, Option.map_eq_some_iff.mpr ⟨e, he, rfl⟩, hmem, hbulk, htext⟩

/-- The text of the item that was picked. -/
theorem currentText_setCurrentIndex {b : ComboBox} {l : List (ℕ × Endpoint)}
    (hb : b.items = itemTexts l) (i : Fin l.length) :
    (b.setCurrentIndex i).currentText = itemText (l.get i).1 (l.get i).2 := by
  have hi : i.val < b.items.length := by
    rw [hb, itemTexts, List.length_map]
    exact i.isLt
  have hget := ComboBox.getElem?_of_index (ComboBox.index_setCurrentIndex hi)
  rw [ComboBox.items_setCurrentIndex, hb, itemTexts, List.getElem?_map,
    List.getElem?_eq_getElem i.isLt] at hget
  exact (Option.some_inj.mp hget).symm

theorem selected_pick_iff (h : w.Selects d) (m : Fin (d.choices true).length)
    (n : Fin (d.choices false).length) :
    (w.getEndpointForDevice.1.pick m n).Selected d api ↔
      d.Finds api ((d.choices true).get m) ∧ d.Finds api ((d.choices false).get n) := by
  obtain ⟨hin, hout, hdevice⟩ := getEndpointForDevice_of_selects h
  have hopen : (w.getEndpointForDevice.1.pick m n).selectedDevice.device = some d :=
    congrArg CyDevice.device hdevice
  have halt : (w.getEndpointForDevice.1.pick m n).selectedDevice.alt = d.interfaces - 1 :=
    congrArg CyDevice.alt hdevice
  rw [← described_iff api hopen halt (currentText_setCurrentIndex hin m),
    ← described_iff api hopen halt (currentText_setCurrentIndex hout n)]
  exact ⟨fun ⟨h₁, h₂⟩ ↦ ⟨h₁, h₂⟩, fun ⟨h₁, h₂⟩ ↦ ⟨h₁, h₂⟩⟩

/-- A window that shows a device. -/
def Window.showing (d : Device) : Window where
  connected := [d]
  selectedDevice := ⟨0, none, 0⟩
  communicationEnabled := false
  bulkInEpt := none
  bulkOutEpt := none
  dataBuffer := []
  plot := fun _ ↦ []
  cbDevice := ComboBox.empty.addItem (deviceText d)
  cbInEpt := .empty
  cbOutEpt := .empty
  log := []

theorem selects_showing (d : Device) : (Window.showing d).Selects d := ⟨0, rfl, rfl⟩

/-- **When the endpoints selected are those shown.** -/
theorem selectsShown_iff (d : Device) (m : Fin (d.choices true).length)
    (n : Fin (d.choices false).length) :
    SelectsShown d m n ↔
      d.Resolves ((d.choices true).get m) ∧ d.Resolves ((d.choices false).get n) := by
  rw [← finds_iff (List.get_mem _ m), ← finds_iff (List.get_mem _ n), ← forall_and]
  constructor
  · intro h api
    exact (selected_pick_iff (selects_showing d) m n).mp (h api _ (selects_showing d))
  · intro h api w hw
    exact (selected_pick_iff hw m n).mpr (h api)

/-- A device with its bulk endpoints in the first of two alternate settings. -/
def twoSettings : Device where
  vendorID := 0x04b4
  productID := 0x00f1
  friendlyName := "FX3".toList
  settings := [[⟨0x01, 2, false⟩, ⟨0x81, 2, true⟩], [⟨0x01, 3, false⟩, ⟨0x81, 3, true⟩]]

/-- **The endpoints of the other setting are selected**, which are not bulk endpoints. -/
theorem not_selectsShown_twoSettings : ¬ SelectsShown twoSettings 0 0 := by
  intro h
  have hfinds := (selected_pick_iff (selects_showing twoSettings) ⟨0, by decide⟩ ⟨0, by decide⟩).mp
    (h (.preferring ⟨0x81, 3, true⟩) _ (selects_showing twoSettings))
  obtain ⟨e, hfound, -, hbulk, -⟩ := hfinds.1
  have hother : (CyApi.preferring ⟨0x81, 3, true⟩).endPointOf
      (twoSettings.setting (twoSettings.interfaces - 1)) 0x81 = some ⟨0x81, 3, true⟩ :=
    endPointOf_preferring rfl (by decide)
  obtain rfl : e = ⟨0x81, 3, true⟩ := Option.some_inj.mp (hfound.symm.trans hother)
  exact absurd hbulk (by decide)

end selecting

end Host
end Usb3FpgaCard
