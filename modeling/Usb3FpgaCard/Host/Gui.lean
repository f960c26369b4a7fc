import Usb3FpgaCard.Host.Endpoints

/-!
# The slots of the main window

What a user can do, as a sequence of events from the construction of the window.  A change of the
combo box of the devices calls a slot that opens the device and lists its endpoints, and clearing
the box or giving it its first item are such changes.  So a refresh opens a device again whenever
there is one, also if it is the device that was open before (`getDevices_opening`).

Assertions are recorded and do not end the run, as in a release build.  A run of a debug build is a
run here that ends with the first assertion that fails.

The slots of the other two boxes, of the slider and of the axes only write texts or move axes, and
are left out.
-/

set_option autoImplicit false

namespace Usb3FpgaCard
namespace Host

open Qt

/-! ## Events -/

/-- What the user does. -/
inductive UiEvent where
  /-- Click `btn_refresh`, with these devices on the bus from now on. -/
  | refresh (devices : List Device)
  /-- Choose an item of `cb_device`. -/
  | deviceChange (i : ℕ)
  /-- Choose an item of `cb_in_ept`. -/
  | inEptChange (i : ℕ)
  /-- Choose an item of `cb_out_ept`. -/
  | outEptChange (i : ℕ)
  /-- Click `btn_select`. -/
  | select
  /-- Click one of the four gpio buttons. -/
  | gpio (ui : Ui) (o : Outcomes)
  /-- Click `start_btn` with the slider at `v`. -/
  | start (ui : Ui) (v : ℕ) (o : Outcomes)
  /-- Click `clr_btn`. -/
  | clear

/-! ## The functions -/

/-- The loop of `handle_button` from `i` on.  The buffer grows while `i` does. -/
def padButton (i : ℕ) (newData : List (BitVec 8)) : List (BitVec 8) :=
  if i < 256 - newData.length then padButton (i + 1) (newData ++ [0]) else newData
termination_by 256 - newData.length - i
decreasing_by
  rw [List.length_append, List.length_singleton]
  omega

/-- The graphs as `init_plot` leaves them. -/
def initPlot : Plot := fun g ↦
  let y : ℚ := (7 - (g.val : ℚ)) * (5 / 2)
  setData [0, 5] [y, y]

namespace Window

variable (w : Window)

/-- A change of `cb_device`, followed by `on_cb_device_currentIndexChanged` if it changes the
index. -/
def setCbDevice (box : ComboBox) : Window :=
  let next := { w with cbDevice := box }
  if box.index = w.cbDevice.index then next else next.getEndpointForDevice.1

/-- One device in `get_devices`, with `nCboIndex`. -/
def addDevice (strDevice : Text) (s : Window × Option ℕ) (d : Device × ℕ) : Window × Option ℕ :=
  let strDeviceData := deviceText d.1
  (s.1.setCbDevice (s.1.cbDevice.addItem strDeviceData),
    if s.2 = none ∧ strDevice ≠ [] ∧ strDevice = strDeviceData then some d.2 else s.2)

/-- The loop of `get_devices`. -/
def listDevices (strDevice : Text) : Window × Option ℕ :=
  w.connected.zipIdx.foldl (addDevice strDevice) (w, none)

/-- `strDevice`, the device shown before. -/
def strDevice : Text := if 0 < w.cbDevice.items.length then w.cbDevice.currentText else []

/-- `MainWindow::get_devices`. -/
def getDevices : Window :=
  let s := (w.setCbDevice .empty).listDevices w.strDevice
  if 1 ≤ s.1.cbDevice.items.length then
    s.1.setCbDevice (s.1.cbDevice.setCurrentIndex (s.2.getD 0))
  else s.1

/-- An endpoint call of this window. -/
def action (c : Call) : Action := .call c w.bulkInEpt w.bulkOutEpt w.selectedDevice.opening

/-- What `send_bulk` does. -/
def sendBulkActions (o : Outcomes) (txBuf : List (BitVec 8)) : List Action :=
  .qAssert w.bulkOutEpt.isSome :: (Host.sendBulk w.communicationEnabled o txBuf).2.map w.action

/-- What `send_and_read_bulk` does.  It calls `send_bulk` after the initial submissions. -/
def sendAndReadBulkActions (o : Outcomes) (txBuf : List (BitVec 8)) (transferCount : BitVec 32) :
    List Action :=
  .qAssert w.bulkInEpt.isSome ::
    if w.communicationEnabled then
      let calls := (Host.sendAndReadBulk true o txBuf w.dataBuffer transferCount).log
      let n := ((Run.start o transferCount).submitAll o transferCount).log.length
      (calls.take n).map w.action ++
        .qAssert w.bulkOutEpt.isSome :: (calls.drop n).map w.action
    else []

/-- `MainWindow::handle_button`. -/
def handleButton (ui : Ui) (o : Outcomes) : Window :=
  { w with log := w.log ++ w.sendBulkActions o (padButton 0 (populateHeader ui [] 0)) }

/-- `MainWindow::on_btn_select_clicked`. -/
def onBtnSelectClicked (api : CyApi) : Window :=
  let w := w.selectEndpoints api
  if w.bulkOutEpt.isSome && w.bulkInEpt.isSome then { w with communicationEnabled := true } else w

/-- `MainWindow::on_start_btn_clicked`. -/
def onStartBtnClicked (ui : Ui) (v : ℕ) (o : Outcomes) : Window :=
  if w.communicationEnabled then
    let newData := populateHeader ui [] (BitVec.ofNat 32 (v * 8))
    let r := Host.sendAndReadBulk true o newData w.dataBuffer (BitVec.ofNat 32 v)
    { w with
      dataBuffer := r.rxBuf
      plot := updatePlot w.plot r.rxBuf
      log := w.log ++ w.sendAndReadBulkActions o newData (BitVec.ofNat 32 v) }
  else w

/-- One event.  Only items that exist can be chosen. -/
def handle (api : CyApi) : UiEvent → Window
  | .refresh devices => { w with connected := devices }.getDevices
  | .deviceChange i =>
    if i < w.cbDevice.items.length then w.setCbDevice (w.cbDevice.setCurrentIndex i) else w
  | .inEptChange i =>
    if i < w.cbInEpt.items.length then { w with cbInEpt := w.cbInEpt.setCurrentIndex i } else w
  | .outEptChange i =>
    if i < w.cbOutEpt.items.length then { w with cbOutEpt := w.cbOutEpt.setCurrentIndex i } else w
  | .select => w.onBtnSelectClicked api
  | .gpio ui o => w.handleButton ui o
  | .start ui v o => w.onStartBtnClicked ui v o
  | .clear => { w with plot := updatePlot w.plot (List.replicate 6 0) }

/-- The window before its constructor calls `get_devices`.  The new `CCyUSBDevice` has opened the
first device. -/
def initial (devices : List Device) : Window where
  connected := devices
  selectedDevice := CyDevice.openDevice ⟨0, none, 0⟩ devices 0
  communicationEnabled := false
  bulkInEpt := none
  bulkOutEpt := none
  dataBuffer := []
  plot := initPlot
  cbDevice := .empty
  cbInEpt := .empty
  cbOutEpt := .empty
  log := []

/-- The constructor of `MainWindow`. -/
def construct (devices : List Device) : Window :=
  (initial devices).getDevices.getEndpointForDevice.1

/-- The window after some events. -/
def run (api : CyApi) (devices : List Device) (es : List UiEvent) : Window :=
  es.foldl (fun w e ↦ w.handle api e) (construct devices)

end Window

/-! ## What listing devices and endpoints leaves -/

/-- The text of an item for an endpoint. -/
def Listed (t : Text) : Prop := ∃ alt ept, t = itemText alt ept

/-- What a window keeps as long as `btn_select` is not clicked. -/
structure Window.Keeps (w w' : Window) : Prop where
  communicationEnabled : w'.communicationEnabled = w.communicationEnabled
  bulkInEpt : w'.bulkInEpt = w.bulkInEpt
  bulkOutEpt : w'.bulkOutEpt = w.bulkOutEpt
  /-- Openings are counted. -/
  opening : w.selectedDevice.opening ≤ w'.selectedDevice.opening
  /-- Items are made for endpoints. -/
  inItems : (∀ t ∈ w.cbInEpt.items, Listed t) → ∀ t ∈ w'.cbInEpt.items, Listed t
  outItems : (∀ t ∈ w.cbOutEpt.items, Listed t) → ∀ t ∈ w'.cbOutEpt.items, Listed t

/-- What it keeps while devices and endpoints are listed. -/
structure Window.Relists (w w' : Window) : Prop extends w.Keeps w' where
  connected : w'.connected = w.connected
  log : w'.log = w.log

section relists

variable {w w' w'' : Window}

theorem Window.Keeps.refl (w : Window) : w.Keeps w := ⟨rfl, rfl, rfl, Nat.le_refl _, id, id⟩

theorem Window.Keeps.trans (h : w.Keeps w') (h' : w'.Keeps w'') : w.Keeps w'' where
  communicationEnabled := h'.communicationEnabled.trans h.communicationEnabled
  bulkInEpt := h'.bulkInEpt.trans h.bulkInEpt
  bulkOutEpt := h'.bulkOutEpt.trans h.bulkOutEpt
  opening := Nat.le_trans h.opening h'.opening
  inItems := h'.inItems ∘ h.inItems
  outItems := h'.outItems ∘ h.outItems

theorem Window.Relists.refl (w : Window) : w.Relists w := ⟨.refl w, rfl, rfl⟩

theorem Window.Relists.trans (h : w.Relists w') (h' : w'.Relists w'') : w.Relists w'' :=
  ⟨h.toKeeps.trans h'.toKeeps, h'.connected.trans h.connected, h'.log.trans h.log⟩

theorem listed_itemTexts (l : List (ℕ × Endpoint)) : ∀ t ∈ itemTexts l, Listed t := by
  intro t ht
  obtain ⟨c, -, rfl⟩ := List.mem_map.mp ht
  exact ⟨c.1, c.2, rfl⟩

theorem items_listing (l : List (ℕ × Endpoint)) :
    (firstIfAny ((itemTexts l).foldl ComboBox.addItem .empty)).items = itemTexts l := by
  rw [items_firstIfAny, ComboBox.items_foldl_addItem]
  rfl

/-- **`get_endpoint_for_device`** opens the device if there is a current one. -/
theorem relists_getEndpointForDevice (w : Window) :
    w.Relists w.getEndpointForDevice.1 ∧
      (∀ i, w.cbDevice.index = some i →
        w.getEndpointForDevice.1.selectedDevice.opening = w.selectedDevice.opening + 1) ∧
      (w.cbDevice.index = none → w.getEndpointForDevice.1.selectedDevice = w.selectedDevice) ∧
      w.getEndpointForDevice.1.cbDevice = w.cbDevice := by
  cases hi : w.cbDevice.index with
  | none =>
    have heq : w.getEndpointForDevice.1 = { w with cbInEpt := .empty, cbOutEpt := .empty } := by
      rw [Window.getEndpointForDevice]
      simp only [hi]
    rw [heq]
    exact ⟨⟨⟨rfl, rfl, rfl, Nat.le_refl _, fun _ _ ht ↦ absurd ht List.not_mem_nil,
      fun _ _ ht ↦ absurd ht List.not_mem_nil⟩, rfl, rfl⟩,
      fun i h ↦ absurd h (Option.some_ne_none i).symm, fun _ ↦ rfl, rfl⟩
  | some i =>
    obtain ⟨ins, outs, alt, heq, -⟩ := getEndpointForDevice_eq hi
    rw [heq]
    refine ⟨⟨⟨rfl, rfl, rfl, Nat.le_succ _, fun _ ↦ ?_, fun _ ↦ ?_⟩, rfl, rfl⟩, fun _ _ ↦ rfl,
      fun h ↦ absurd h (Option.some_ne_none i), rfl⟩
    · rw [items_listing]
      exact listed_itemTexts ins
    · rw [items_listing]
      exact listed_itemTexts outs

/-- A change of the box of the devices. -/
theorem relists_setCbDevice (w : Window) (box : ComboBox) :
    w.Relists (w.setCbDevice box) ∧ (w.setCbDevice box).cbDevice = box := by
  have hnext : w.Relists { w with cbDevice := box } :=
    ⟨⟨rfl, rfl, rfl, Nat.le_refl _, id, id⟩, rfl, rfl⟩
  rw [Window.setCbDevice]
  split
  · exact ⟨hnext, rfl⟩
  · obtain ⟨hlist, -, -, hbox⟩ := relists_getEndpointForDevice { w with cbDevice := box }
    exact ⟨hnext.trans hlist, hbox⟩

/-- It opens the device if another index becomes the current one, -/
theorem opening_setCbDevice {box : ComboBox} {i : ℕ} (hi : box.index = some i)
    (hne : w.cbDevice.index ≠ some i) :
    (w.setCbDevice box).selectedDevice.opening = w.selectedDevice.opening + 1 := by
  rw [Window.setCbDevice, if_neg (by rw [hi]; exact hne.symm)]
  exact (relists_getEndpointForDevice { w with cbDevice := box }).2.1 i hi

/-- and otherwise leaves it. -/
theorem selectedDevice_setCbDevice {box : ComboBox}
    (h : box.index = none ∨ box.index = w.cbDevice.index) :
    (w.setCbDevice box).selectedDevice = w.selectedDevice := by
  rw [Window.setCbDevice]
  split
  · rfl
  · rename_i hne
    exact (relists_getEndpointForDevice { w with cbDevice := box }).2.2.1 (h.resolve_right hne)

/-- Adding devices one after the other. -/
theorem relists_foldl_addDevice (strDevice : Text) (l : List (Device × ℕ)) (s : Window × Option ℕ) :
    s.1.Relists (l.foldl (Window.addDevice strDevice) s).1 := by
  induction l generalizing s with
  | nil => exact .refl _
  | cons d l ih => exact (relists_setCbDevice s.1 _).1.trans (ih (Window.addDevice strDevice s d))

theorem relists_listDevices (w : Window) (strDevice : Text) :
    w.Relists (w.listDevices strDevice).1 := relists_foldl_addDevice strDevice _ (w, none)

/-- The end of `get_devices`. -/
theorem listDevices_relists_getDevices (w : Window) :
    ((w.setCbDevice .empty).listDevices w.strDevice).1.Relists w.getDevices := by
  rw [Window.getDevices]
  split
  · exact (relists_setCbDevice _ _).1
  · exact .refl _

/-- **`get_devices`.** -/
theorem relists_getDevices (w : Window) : w.Relists w.getDevices :=
  ((relists_setCbDevice w .empty).1.trans (relists_listDevices _ _)).trans
    (listDevices_relists_getDevices w)

theorem relists_construct (devices : List Device) :
    (Window.initial devices).Relists (Window.construct devices) :=
  (relists_getDevices _).trans (relists_getEndpointForDevice _).1

/-- **A refresh opens a device again** if there is one: the first item becomes the current one. -/
theorem getDevices_opening (h : w.connected ≠ []) :
    w.selectedDevice.opening < w.getDevices.selectedDevice.opening := by
  obtain ⟨hclear, hbox⟩ := relists_setCbDevice w .empty
  obtain ⟨d, l, hl⟩ := List.exists_cons_of_ne_nil h
  refine Nat.lt_of_lt_of_le ?_ (listDevices_relists_getDevices w).opening
  rw [Window.listDevices, hclear.connected, hl, List.zipIdx_cons, List.foldl_cons]
  refine Nat.lt_of_lt_of_le ?_ (relists_foldl_addDevice w.strDevice _ _).opening
  have hfirst : ((w.setCbDevice .empty).setCbDevice
      ((w.setCbDevice .empty).cbDevice.addItem (deviceText d))).selectedDevice.opening =
        (w.setCbDevice .empty).selectedDevice.opening + 1 := by
    rw [hbox]
    exact opening_setCbDevice rfl (by rw [hbox]; exact nofun)
  show _ < ((w.setCbDevice .empty).setCbDevice
    ((w.setCbDevice .empty).cbDevice.addItem (deviceText d))).selectedDevice.opening
  rw [hfirst]
  exact Nat.lt_succ_of_le hclear.opening

/-- If there is none, the device stays as it was. -/
theorem selectedDevice_getDevices (h : w.connected = []) :
    w.getDevices.selectedDevice = w.selectedDevice := by
  obtain ⟨hclear, hbox⟩ := relists_setCbDevice w .empty
  have hlist : (w.setCbDevice .empty).listDevices w.strDevice = (w.setCbDevice .empty, none) := by
    rw [Window.listDevices, hclear.connected, h]
    rfl
  rw [Window.getDevices, hlist, hbox]
  exact selectedDevice_setCbDevice (.inl rfl)

end relists

end Host
end Usb3FpgaCard
