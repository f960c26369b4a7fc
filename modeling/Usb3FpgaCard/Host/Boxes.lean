import Usb3FpgaCard.Host.Gui

/-!
# What the boxes show

The three boxes of the window and the device it has open are kept in step by signals: `get_devices`
clears and fills `cb_device`, each change of its index calls `get_endpoint_for_device`, and that
opens the device and fills the other two.  After every event the boxes agree with each other and
with the device (`consistent_run`), although during a refresh the first device is opened in passing.

A refresh looks for the text that was shown before.  The window shows the first device that has it,
and the first of all if there is none (`refreshed_run`).
-/

set_option autoImplicit false

namespace Usb3FpgaCard
namespace Host

open Qt

namespace Window

variable (w : Window)

/-- The device `cb_device` shows. -/
def shown : Option Device := w.cbDevice.index.bind fun i ↦ w.connected[i]?

/-- The bulk endpoints it has. -/
def shownChoices (bIn : Bool) : List (ℕ × Endpoint) := w.shown.elim [] fun d ↦ d.choices bIn

/-- The device that is shown is open, and the boxes list its endpoints. -/
structure EndpointsShown : Prop where
  /-- It has been opened, and gone through to the last setting. -/
  opened : ∀ d, w.shown = some d →
    w.selectedDevice.device = some d ∧ w.selectedDevice.alt = d.interfaces - 1
  inItems : w.cbInEpt.items = itemTexts (w.shownChoices true)
  outItems : w.cbOutEpt.items = itemTexts (w.shownChoices false)
  /-- One of them is the current one if there are any. -/
  inIndex : w.cbInEpt.index = none → w.cbInEpt.items = []
  outIndex : w.cbOutEpt.index = none → w.cbOutEpt.items = []

/-- The boxes agree with the devices on the bus. -/
structure Consistent : Prop extends w.EndpointsShown where
  /-- Every device has its item. -/
  devices : w.cbDevice.items = w.connected.map deviceText
  /-- One of them is the current one if there are any. -/
  index : w.cbDevice.index = none → w.connected = []

end Window

variable {w w' : Window} {box : ComboBox} {d : Device} {i : ℕ} {api : CyApi}

/-! ## The endpoints -/

theorem firstIfAny_index (h : (firstIfAny box).index = none) : (firstIfAny box).items = [] := by
  rw [firstIfAny] at h ⊢
  split at h
  case isTrue hpos =>
    rw [ComboBox.index_setCurrentIndex hpos] at h
    cases h
  case isFalse hnot =>
    rw [if_neg hnot]
    exact List.eq_nil_of_length_eq_zero (Nat.eq_zero_of_not_pos hnot)

/-- **`get_endpoint_for_device` puts the boxes in step** with `cb_device`, if that has no current
item or one for a device on the bus. -/
theorem endpointsShown_getEndpointForDevice
    (h : ∀ i, w.cbDevice.index = some i → i < w.connected.length) :
    w.getEndpointForDevice.1.EndpointsShown := by
  cases hi : w.cbDevice.index with
  | none =>
    have heq : w.getEndpointForDevice.1 = { w with cbInEpt := .empty, cbOutEpt := .empty } := by
      rw [Window.getEndpointForDevice]
      simp only [hi]
    have hshown : w.getEndpointForDevice.1.shown = none := by
      rw [heq, Window.shown, hi]
      rfl
    refine ⟨fun d hd ↦ ?_, ?_, ?_, fun _ ↦ ?_, fun _ ↦ ?_⟩
    · rw [hshown] at hd
      cases hd
    · rw [Window.shownChoices, hshown, heq]
      rfl
    · rw [Window.shownChoices, hshown, heq]
      rfl
    · rw [heq]
      rfl
    · rw [heq]
      rfl
  | some i =>
    obtain ⟨ins, outs, alt, heq, hlist⟩ := getEndpointForDevice_eq hi
    obtain ⟨d, hd⟩ : ∃ d, w.connected[i]? = some d :=
      ⟨_, List.getElem?_eq_getElem (h i hi)⟩
    obtain ⟨rfl, rfl, rfl⟩ := hlist d hd
    have hshown : w.getEndpointForDevice.1.shown = some d := by
      rw [heq, Window.shown, hi]
      exact hd
    refine ⟨fun d hd' ↦ ?_, ?_, ?_, ?_, ?_⟩
    · rw [hshown, Option.some_inj] at hd'
      subst hd'
      rw [heq]
      exact ⟨hd, rfl⟩
    · rw [Window.shownChoices, hshown, heq]
      exact items_listing _
    · rw [Window.shownChoices, hshown, heq]
      exact items_listing _
    · rw [heq]
      exact firstIfAny_index
    · rw [heq]
      exact firstIfAny_index

/-- **A change of `cb_device`** keeps them in step. -/
theorem endpointsShown_setCbDevice (hw : box.index = w.cbDevice.index → w.EndpointsShown)
    (h : ∀ i, box.index = some i → i < w.connected.length) :
    (w.setCbDevice box).EndpointsShown := by
  rw [Window.setCbDevice]
  split
  case isTrue hsame =>
    obtain ⟨hopened, hin, hout, hini, houti⟩ := hw hsame
    have hshown : ({ w with cbDevice := box } : Window).shown = w.shown := by
      rw [Window.shown, hsame, Window.shown]
    refine ⟨fun d hd ↦ hopened d (hshown ▸ hd), ?_, ?_, hini, houti⟩
    · rw [Window.shownChoices, hshown]
      exact hin
    · rw [Window.shownChoices, hshown]
      exact hout
  case isFalse => exact endpointsShown_getEndpointForDevice h

/-! ## `get_devices` -/

/-- The window while `get_devices` fills `cb_device`, these devices being in it. -/
structure Window.Filled (w : Window) (done : List Device) : Prop extends w.EndpointsShown where
  items : w.cbDevice.items = done.map deviceText
  index : w.cbDevice.index = none → done = []
  valid : ∀ i, w.cbDevice.index = some i → i < w.connected.length

/-- One more device. -/
theorem Window.Filled.addDevice {done : List Device} {s : Window × Option ℕ}
    (h : s.1.Filled done) (hpos : 0 < s.1.connected.length) (strDevice : Text) (d : Device × ℕ) :
    (Window.addDevice strDevice s d).1.Filled (done ++ [d.1]) := by
  obtain ⟨hrelists, hbox⟩ := relists_setCbDevice s.1 (s.1.cbDevice.addItem (deviceText d.1))
  have hvalid : ∀ i, (s.1.cbDevice.addItem (deviceText d.1)).index = some i →
      i < s.1.connected.length := by
    intro i hi
    rw [ComboBox.addItem] at hi
    dsimp only at hi
    split at hi
    · cases hi
      exact hpos
    · exact h.valid i hi
  refine ⟨endpointsShown_setCbDevice (fun _ ↦ h.toEndpointsShown) hvalid, ?_, fun hnone ↦ ?_, ?_⟩
  · rw [Window.addDevice, hbox, ComboBox.items_addItem, h.items, List.map_append]
    rfl
  · rw [Window.addDevice, hbox, ComboBox.addItem] at hnone
    dsimp only at hnone
    split at hnone
    case isTrue => cases hnone
    case isFalse hne => exact absurd (by rw [h.items, h.index hnone]; rfl) hne
  · rw [Window.addDevice, hbox, hrelists.connected]
    exact hvalid

theorem Window.Filled.foldl (strDevice : Text) (l : List (Device × ℕ)) {done : List Device}
    {s : Window × Option ℕ} (h : s.1.Filled done) (hpos : l ≠ [] → 0 < s.1.connected.length) :
    (l.foldl (Window.addDevice strDevice) s).1.Filled (done ++ l.map Prod.fst) := by
  induction l generalizing done s with
  | nil => rwa [List.map_nil, List.append_nil]
  | cons d l ih =>
    have hone := h.addDevice (hpos (List.cons_ne_nil d l)) strDevice d
    rw [List.foldl_cons, List.map_cons, ← List.singleton_append, ← List.append_assoc]
    have hconnected := (relists_setCbDevice s.1 (s.1.cbDevice.addItem (deviceText d.1))).1.connected
    exact ih hone fun _ ↦ by
      rw [Window.addDevice, hconnected]
      exact hpos (List.cons_ne_nil d l)

/-- The place of the first device with a text. -/
def placeOf (strDevice : Text) (devices : List Device) : Option ℕ :=
  devices.findIdx? fun d ↦ deviceText d = strDevice

theorem placeOf_lt {strDevice : Text} {devices : List Device}
    (h : placeOf strDevice devices = some i) : i < devices.length :=
  (List.findIdx?_eq_some_iff_getElem.mp h).1

theorem deviceText_ne_nil (d : Device) : deviceText d ≠ [] := by
  rw [deviceText]
  simp only [List.append_assoc]
  exact List.append_ne_nil_of_left_ne_nil (by decide) _

/-- **The loop finds the first item with the text.** -/
theorem foldl_addDevice_snd (strDevice : Text) (devices : List Device) (k : ℕ)
    (s : Window × Option ℕ) :
    ((devices.zipIdx k).foldl (Window.addDevice strDevice) s).2 =
      s.2.or ((placeOf strDevice devices).map (· + k)) := by
  induction devices generalizing k s with
  | nil => exact (Option.or_none).symm
  | cons d l ih =>
    rw [List.zipIdx_cons, List.foldl_cons, ih, Window.addDevice, placeOf, placeOf,
      List.findIdx?_cons]
    cases s.2 with
    | some j => rfl
    | none =>
      by_cases hd : deviceText d = strDevice
      · have hne : strDevice ≠ [] := hd ▸ deviceText_ne_nil d
        simp [hd, hne]
      · simp [hd, Ne.symm hd, Function.comp_def, Nat.add_assoc, Nat.add_comm 1]

/-! ## Choosing a device -/

theorem Window.Consistent.valid (h : w.Consistent) (hi : w.cbDevice.index = some i) :
    i < w.connected.length := by
  have hlt := w.cbDevice.index_lt i hi
  rwa [h.devices, List.length_map] at hlt

/-- **An item of `cb_device` becomes the current one.** -/
theorem Window.Consistent.choose (h : w.Consistent) (hi : i < w.connected.length) :
    (w.setCbDevice (w.cbDevice.setCurrentIndex i)).Consistent ∧
      (w.setCbDevice (w.cbDevice.setCurrentIndex i)).cbDevice.index = some i := by
  obtain ⟨hrelists, hbox⟩ := relists_setCbDevice w (w.cbDevice.setCurrentIndex i)
  have hindex : (w.cbDevice.setCurrentIndex i).index = some i :=
    ComboBox.index_setCurrentIndex (by rwa [h.devices, List.length_map])
  have hvalid : ∀ j, (w.cbDevice.setCurrentIndex i).index = some j → j < w.connected.length := by
    intro j hj
    rw [hindex, Option.some_inj] at hj
    exact hj ▸ hi
  refine ⟨⟨endpointsShown_setCbDevice (fun _ ↦ h.toEndpointsShown) hvalid, ?_, fun hnone ↦ ?_⟩, ?_⟩
  · rw [hbox, ComboBox.items_setCurrentIndex, h.devices, hrelists.connected]
  · rw [hbox, hindex] at hnone
    cases hnone
  · rw [hbox, hindex]

/-- The window `w'` after a refresh, for the devices on the bus. -/
structure Refreshed (connected : List Device) (strDevice : Text) (w' : Window) : Prop
    extends w'.Consistent where
  bus : w'.connected = connected
  /-- It shows the first device with the text, or else the first of all. -/
  place : w'.cbDevice.index =
    if connected = [] then none else some ((placeOf strDevice connected).getD 0)

/-- **`get_devices`.** -/
theorem refreshed_getDevices (h : w.cbDevice.index = none → w.EndpointsShown) :
    Refreshed w.connected w.strDevice w.getDevices := by
  obtain ⟨hclear, hempty⟩ := relists_setCbDevice w .empty
  have hstart : (w.setCbDevice .empty).Filled [] := by
    refine ⟨endpointsShown_setCbDevice (fun hsame ↦ h hsame.symm) nofun, ?_, fun _ ↦ rfl, ?_⟩
    · rw [hempty]
      rfl
    · rw [hempty]
      exact nofun
  have hbus : ((w.setCbDevice .empty).listDevices w.strDevice).1.connected = w.connected :=
    (relists_listDevices _ _).connected.trans hclear.connected
  have hplace : ((w.setCbDevice .empty).listDevices w.strDevice).2 =
      placeOf w.strDevice w.connected := by
    rw [Window.listDevices, foldl_addDevice_snd, hclear.connected]
    simp
  have hlist : ((w.setCbDevice .empty).listDevices w.strDevice).1.Filled w.connected := by
    have hall := hstart.foldl (s := (w.setCbDevice .empty, none)) w.strDevice
      (w.setCbDevice .empty).connected.zipIdx fun hne ↦
        List.length_pos_of_ne_nil fun hnil ↦ hne (by rw [hnil]; rfl)
    rw [List.nil_append, List.zipIdx_map_fst] at hall
    rw [← hclear.connected]
    exact hall
  rw [Window.getDevices]
  generalize (w.setCbDevice .empty).listDevices w.strDevice = s at hbus hplace hlist
  have hs : s.1.Consistent := ⟨hlist.toEndpointsShown, hbus ▸ hlist.items, hbus ▸ hlist.index⟩
  have hlen : s.1.cbDevice.items.length = w.connected.length := by
    rw [hlist.items, List.length_map]
  rw [hplace, hlen]
  split
  case isTrue hpos =>
    have hlt : (placeOf w.strDevice w.connected).getD 0 < s.1.connected.length := by
      rw [hbus]
      cases hp : placeOf w.strDevice w.connected with
      | none => exact hpos
      | some i => exact placeOf_lt hp
    obtain ⟨hchosen, hindex⟩ := hs.choose hlt
    refine ⟨hchosen, (relists_setCbDevice _ _).1.connected.trans hbus, ?_⟩
    rw [hindex, if_neg (List.ne_nil_of_length_pos hpos)]
  case isFalse hnone =>
    have hnil : w.connected = [] := List.eq_nil_of_length_eq_zero (by omega)
    refine ⟨hs, hbus, ?_⟩
    rw [if_pos hnil]
    cases hi : s.1.cbDevice.index with
    | none => rfl
    | some i => exact absurd (hs.valid hi) (by rw [hbus, hnil]; exact Nat.not_lt_zero i)

/-! ## A run -/

/-- The boxes depend on nothing else. -/
theorem Window.Consistent.congr (h : w.Consistent) (hbus : w'.connected = w.connected)
    (hdevice : w'.selectedDevice = w.selectedDevice) (hbox : w'.cbDevice = w.cbDevice)
    (hin : w'.cbInEpt = w.cbInEpt) (hout : w'.cbOutEpt = w.cbOutEpt) : w'.Consistent := by
  obtain ⟨⟨hopened, hins, houts, hini, houti⟩, hdevices, hindex⟩ := h
  have hshown : w'.shown = w.shown := by rw [Window.shown, hbox, hbus, Window.shown]
  constructor
  · constructor
    · rw [hshown, hdevice]
      exact hopened
    · rw [Window.shownChoices, hshown, hin]
      exact hins
    · rw [Window.shownChoices, hshown, hout]
      exact houts
    · rwa [hin]
    · rwa [hout]
  · rw [hbox, hbus, hdevices]
  · rwa [hbox, hbus]

/-- Nothing is shown, and nothing is listed. -/
theorem Window.Consistent.of_index (h : w.Consistent) (hnone : w.cbDevice.index = none)
    (devices : List Device) : ({ w with connected := devices } : Window).EndpointsShown := by
  have hshown : w.shown = none := by rw [Window.shown, hnone]; rfl
  have hshown' : ({ w with connected := devices } : Window).shown = none := by
    rw [Window.shown, hnone]
    rfl
  obtain ⟨-, hins, houts, hini, houti⟩ := h.toEndpointsShown
  rw [Window.shownChoices, hshown] at hins houts
  refine ⟨fun d hd ↦ ?_, ?_, ?_, hini, houti⟩
  · rw [hshown'] at hd
    cases hd
  · rwa [Window.shownChoices, hshown']
  · rwa [Window.shownChoices, hshown']

/-- **A refresh** of any consistent window. -/
theorem Window.Consistent.refresh (h : w.Consistent) (devices : List Device) :
    Refreshed devices w.cbDevice.currentText (w.handle api (.refresh devices)) := by
  have hrefresh := refreshed_getDevices (w := { w with connected := devices }) fun hnone ↦
    h.of_index hnone devices
  have htext : ({ w with connected := devices } : Window).strDevice = w.cbDevice.currentText := by
    rw [Window.strDevice]
    split
    · rfl
    · next hnone =>
      refine (ComboBox.currentText_of_index_eq_none ?_).symm
      cases hi : w.cbDevice.index with
      | none => rfl
      | some i => exact absurd (Nat.zero_lt_of_lt (w.cbDevice.index_lt i hi)) hnone
  rwa [htext] at hrefresh

/-- An endpoint is chosen. -/
theorem Window.Consistent.setCurrentIndex (h : w.Consistent) {m n : Option ℕ}
    (hin : ∀ i ∈ m, i < w.cbInEpt.items.length) (hout : ∀ i ∈ n, i < w.cbOutEpt.items.length) :
    ({ w with
      cbInEpt := m.elim w.cbInEpt w.cbInEpt.setCurrentIndex
      cbOutEpt := n.elim w.cbOutEpt w.cbOutEpt.setCurrentIndex } : Window).Consistent := by
  obtain ⟨⟨hopened, hins, houts, hini, houti⟩, hdevices, hindex⟩ := h
  refine ⟨⟨hopened, ?_, ?_, fun hi ↦ ?_, fun hi ↦ ?_⟩, hdevices, hindex⟩
  · cases m with
    | none => exact hins
    | some i => exact ComboBox.items_setCurrentIndex.trans hins
  · cases n with
    | none => exact houts
    | some i => exact ComboBox.items_setCurrentIndex.trans houts
  · cases m with
    | none => exact hini hi
    | some i => exact absurd ((ComboBox.index_setCurrentIndex (hin i rfl)).symm.trans hi) nofun
  · cases n with
    | none => exact houti hi
    | some i => exact absurd ((ComboBox.index_setCurrentIndex (hout i rfl)).symm.trans hi) nofun

/-- **One event** keeps the boxes in step. -/
theorem Window.Consistent.handle (h : w.Consistent) (api : CyApi) (e : UiEvent) :
    (w.handle api e).Consistent := by
  cases e with
  | refresh devices => exact (h.refresh devices).toConsistent
  | deviceChange i =>
    rw [Window.handle]
    split
    case isTrue hi => exact (h.choose (by rwa [h.devices, List.length_map] at hi)).1
    case isFalse => exact h
  | inEptChange i =>
    rw [Window.handle]
    split
    case isTrue hi =>
      exact h.setCurrentIndex (m := some i) (n := none) (fun j hj ↦ Option.some_inj.mp hj ▸ hi)
        nofun
    case isFalse => exact h
  | outEptChange i =>
    rw [Window.handle]
    split
    case isTrue hi =>
      exact h.setCurrentIndex (m := none) (n := some i) nofun fun j hj ↦ Option.some_inj.mp hj ▸ hi
    case isFalse => exact h
  | select =>
    rw [Window.handle, Window.onBtnSelectClicked]
    split
    · exact h.congr rfl rfl rfl rfl rfl
    · exact h.congr rfl rfl rfl rfl rfl
  | gpio ui o => exact h.congr rfl rfl rfl rfl rfl
  | start ui v o =>
    rw [Window.handle, Window.onStartBtnClicked]
    split
    · exact h.congr rfl rfl rfl rfl rfl
    · exact h
  | clear => exact h.congr rfl rfl rfl rfl rfl

theorem consistent_construct (devices : List Device) : (Window.construct devices).Consistent := by
  have hstart : (Window.initial devices).EndpointsShown :=
    ⟨nofun, rfl, rfl, fun _ ↦ rfl, fun _ ↦ rfl⟩
  have hdevices := (refreshed_getDevices fun _ ↦ hstart).toConsistent
  obtain ⟨hrelists, -, -, hbox⟩ :=
    relists_getEndpointForDevice (Window.initial devices).getDevices
  refine ⟨endpointsShown_getEndpointForDevice fun i hi ↦ hdevices.valid hi, ?_, ?_⟩
  · rw [Window.construct, hbox, hrelists.connected]
    exact hdevices.devices
  · rw [Window.construct, hbox, hrelists.connected]
    exact hdevices.index

theorem consistent_foldl (es : List UiEvent) (h : w.Consistent) :
    (es.foldl (fun w e ↦ w.handle api e) w).Consistent := by
  induction es generalizing w with
  | nil => exact h
  | cons e es ih => exact ih (h.handle api e)

/-- **The boxes agree with each other, with the bus and with the open device**, whatever the user
does. -/
theorem consistent_run (api : CyApi) (devices : List Device) (es : List UiEvent) :
    (Window.run api devices es).Consistent := consistent_foldl es (consistent_construct devices)

/-- **What a refresh shows**: the first device with the text that was shown before, or else the
first of all. -/
theorem refreshed_run (api : CyApi) (devices : List Device) (es : List UiEvent)
    (devices' : List Device) :
    Refreshed devices' (Window.run api devices es).cbDevice.currentText
      (Window.run api devices (es ++ [.refresh devices'])) := by
  have hrun : Window.run api devices (es ++ [.refresh devices']) =
      (Window.run api devices es).handle api (.refresh devices') := by
    rw [Window.run, List.foldl_append]
    rfl
  rw [hrun]
  exact (consistent_foldl es (consistent_construct devices)).refresh devices'

end Host
end Usb3FpgaCard
