import Usb3FpgaCard.Qt.ComboBox

/-!
# Devices and endpoints

What the application sees of CyAPI and of the devices on the bus.  A device has alternate settings,
each with its endpoints, and the application finds an endpoint by its address alone.  Which one
`EndPointOf` gives is not determined if there are several with the address: `CyApi` says what can be
relied on.

The application remembers an endpoint by the text of an item in a combo box, `itemText`.  The text
can be read back: it has the address (`toInt_right_itemText`), and as a whole it also has the
alternate setting and the direction (`itemText_inj`).
-/

set_option autoImplicit false

namespace Usb3FpgaCard
namespace Host

open Qt

/-! ## Devices -/

/-- A `CCyUSBEndPoint`. -/
structure Endpoint where
  address : BitVec 8
  /-- The type of the endpoint; 2 is bulk. -/
  attributes : BitVec 8
  bIn : Bool
  deriving DecidableEq

/-- The control endpoint, which is in every setting. -/
def controlEndPt : Endpoint := ⟨0, 0, false⟩

/-- A device on the bus. -/
structure Device where
  vendorID : BitVec 16
  productID : BitVec 16
  friendlyName : Text
  /-- The endpoints of each alternate setting, without the control endpoint. -/
  settings : List (List Endpoint)

/-- `AltIntfcCount() + 1`. -/
def Device.interfaces (d : Device) : ℕ := d.settings.length

/-- An alternate setting. -/
def Device.setting (d : Device) (alt : ℕ) : List Endpoint := d.settings.getD alt []

/-! ## CyAPI -/

/-- `CCyUSBDevice::EndPointOf`, given the endpoints of the current setting. -/
structure CyApi where
  endPointOf : List Endpoint → BitVec 8 → Option Endpoint
  /-- It finds an endpoint of the setting that has the address, -/
  found : ∀ setting addr e, endPointOf setting addr = some e →
    e.address = addr ∧ e ∈ controlEndPt :: setting
  /-- if there is one. -/
  complete : ∀ setting addr, (∃ e ∈ setting, e.address = addr) → (endPointOf setting addr).isSome

/-- A pointer to an endpoint: it belongs to one opening of the device, and to the setting that was
current when it was obtained. -/
structure Ptr where
  opening : ℕ
  alt : ℕ
  endpoint : Endpoint

/-- A `CCyUSBDevice`. -/
structure CyDevice where
  /-- How often `Open` has been called.  Each call ends the opening before it. -/
  opening : ℕ
  /-- The device that is open. -/
  device : Option Device
  /-- The current alternate setting. -/
  alt : ℕ

namespace CyDevice

/-- `CCyUSBDevice::Open`, `connected` being the devices on the bus. -/
def openDevice (s : CyDevice) (connected : List Device) (dev : ℕ) : CyDevice where
  opening := s.opening + 1
  device := connected[dev]?
  alt := 0

/-- `CCyUSBDevice::SetAltIntfc`. -/
def setAltIntfc (s : CyDevice) (alt : ℕ) : CyDevice := { s with alt := alt }

/-- `EndPoints`, without the control endpoint. -/
def endPoints (s : CyDevice) : List Endpoint := (s.device.map fun d ↦ d.setting s.alt).getD []

/-- `AltIntfcCount() + 1`, or 0 if no device is open. -/
def interfaces (s : CyDevice) : ℕ := (s.device.map Device.interfaces).getD 0

/-- `CCyUSBDevice::EndPointOf`. -/
def endPointOf (s : CyDevice) (api : CyApi) (addr : BitVec 8) : Option Ptr :=
  s.device.bind fun d ↦ (api.endPointOf (d.setting s.alt) addr).map (Ptr.mk s.opening s.alt)

end CyDevice

theorem opening_of_endPointOf {s : CyDevice} {api : CyApi} {addr : BitVec 8} {p : Ptr}
    (h : s.endPointOf api addr = some p) : p.opening = s.opening := by
  obtain ⟨d, -, he⟩ := Option.bind_eq_some_iff.mp h
  obtain ⟨e, -, rfl⟩ := Option.map_eq_some_iff.mp he
  rfl

/-! ## The texts of the items -/

/-- The text of an endpoint in the combo boxes. -/
def itemText (alt : ℕ) (ept : Endpoint) : Text :=
  (if ept.attributes = 1 then "ISOC ".toList
    else if ept.attributes = 2 then "BULK ".toList
    else "INTR ".toList) ++
  (if ept.bIn then "IN, ".toList else "OUT, ".toList) ++
  ("AltInt - ".toList ++ Nat.toDigits 10 alt ++ " and EpAddr - 0x".toList ++
    Nat.toDigits 16 ept.address.toNat)

/-- The text of a device. -/
def deviceText (d : Device) : Text :=
  "(0x".toList ++ Nat.toDigits 16 d.vendorID.toNat ++ " - 0x".toList ++
    Nat.toDigits 16 d.productID.toNat ++ ") ".toList ++ d.friendlyName

/-- **The address of an item** is in the last four characters of its text. -/
theorem toInt_right_itemText (alt : ℕ) (ept : Endpoint) :
    toInt (right (itemText alt ept) 4) = some (ept.address.toNat : ℤ) := by
  have hsplit : " and EpAddr - 0x".toList = " and EpAddr -".toList ++ " 0x".toList := rfl
  rw [itemText, hsplit]
  simp only [← List.append_assoc]
  exact toInt_right_hex _ ept.address.isLt

/-- **What an item says** about two bulk endpoints with the same text. -/
theorem itemText_inj {a a' : ℕ} {e e' : Endpoint} (he : e.attributes = 2) (he' : e'.attributes = 2)
    (h : itemText a e = itemText a' e') : a = a' ∧ e = e' := by
  have haddress : e.address = e'.address := by
    have hread := toInt_right_itemText a e
    rw [h, toInt_right_itemText, Option.some_inj, Int.ofNat_inj] at hread
    exact BitVec.eq_of_toNat_eq hread.symm
  obtain ⟨address, attributes, bIn⟩ := e
  obtain ⟨address', attributes', bIn'⟩ := e'
  obtain rfl : address = address' := haddress
  obtain rfl : attributes = attributes' := he.trans he'.symm
  simp only [itemText, List.append_cancel_left_eq, List.append_assoc] at h
  -- the texts differ in the first letter of the direction, or otherwise in the number
  obtain rfl : bIn = bIn' := by cases bIn <;> cases bIn' <;> first | rfl | cases h
  simp only [List.append_cancel_left_eq, List.append_cancel_right_eq] at h
  exact ⟨eq_of_toDigits_eq h, rfl⟩

end Host
end Usb3FpgaCard
