import Mathlib.Data.List.Infix
import Mathlib.Logic.Function.Basic
import Usb3FpgaCard.Fx3.Sockets
import Usb3FpgaCard.History.Past

/-!
# The lifecycle of the DMA channels: `fx3/cyfxslfifosync.c`

`CyFxSlFifoApplnStart` and `CyFxSlFifoApplnStop`, and the two callbacks that call them.  The SDK has
two kinds of channel, each with a family of functions of its own, and the firmware has one channel
of each kind.  It creates and arms both with the right family, but it resets, re-arms and destroys
the multichannel with `CyU3PDmaChannel*`, which leaves the multichannel as it was.

So the multichannel is never destroyed, and everything is fine until the application is to be
stopped for the first time (`lifecycle_iff`).  Clearing a halt is harmless here: what is left out
there is a reset, and the channel stays armed.

What the SDK does is not determined.  `Sdk` says what the firmware may rely on when it calls a
function where it is legal, and nothing about the other calls.
-/

set_option autoImplicit false

namespace Usb3FpgaCard
namespace Fx3

open History

/-! ## Channels and the SDK -/

/-- The two kinds of DMA channel; the functions of the SDK are named after them. -/
inductive Family where
  /-- `CyU3PDmaChannel`. -/
  | channel
  /-- `CyU3PDmaMultiChannel`. -/
  | multiChannel
  deriving DecidableEq

/-- The handles of the firmware. -/
inductive Handle where
  /-- `glChHandleSlFifoUtoP`. -/
  | uToP
  /-- `glChHandleSlFifoPtoU`. -/
  | pToU
  deriving DecidableEq

/-- A live channel. -/
structure DmaChannel where
  /-- The family it was created with. -/
  family : Family
  /-- A transfer has been set up on it. -/
  armed : Bool
  deriving DecidableEq

/-- The sockets of the USB block and of the P-port. -/
inductive SocketId where
  | uibProd (n : ℕ)
  | uibCons (n : ℕ)
  | pib (n : ℕ)

/-- What a channel is created with: the fields of `CyU3PDmaChannelConfig_t` and
`CyU3PDmaMultiChannelConfig_t` that are not zero.  Both channels are of an `AUTO` type in byte
mode. -/
structure DmaConfig where
  size : ℕ
  count : ℕ
  prodSckId : List SocketId
  consSckId : List SocketId

/-- The functions both families have. -/
inductive DmaFunction where
  | create (cfg : DmaConfig)
  | setXfer (count : ℕ)
  | reset
  | destroy

/-- What the functions of the SDK do to a channel, and whether they succeed: with the channel of the
handle if that is live, and with `none` otherwise. -/
structure Sdk where
  dma : Family → DmaFunction → Option DmaChannel → Bool × Option DmaChannel
  /-- A handle that is not live can be created; -/
  create : ∀ f cfg, dma f (.create cfg) none = (true, some ⟨f, false⟩)
  /-- a channel that is not armed can be armed, -/
  setXfer : ∀ f n, dma f (.setXfer n) (some ⟨f, false⟩) = (true, some ⟨f, true⟩)
  /-- and a live one can be reset -/
  reset : ∀ f armed, dma f .reset (some ⟨f, armed⟩) = (true, some ⟨f, false⟩)
  /-- and destroyed. -/
  destroy : ∀ f armed, dma f .destroy (some ⟨f, armed⟩) = (true, none)
  /-- A call of the other family leaves a channel as it was. -/
  other : ∀ f call c, f ≠ c.family → (dma f call (some c)).2 = some c

/-! ## The firmware -/

/-- `CyU3PEpConfig_t`. -/
structure EpConfig where
  enable : Bool
  /-- `epType` is `CY_U3P_USB_EP_BULK`. -/
  bulk : Bool
  burstLen : ℕ
  streams : ℕ
  pcktSize : ℕ

/-- What `CyU3PMemSet` makes of it. -/
def EpConfig.zero : EpConfig := ⟨false, false, 0, 0, 0⟩

/-- The calls that have nothing to do with the channels.  They always succeed. -/
inductive UsbCall where
  | lpmDisable
  | setEpConfig (ep : BitVec 8) (epCfg : EpConfig)
  | flushEp (ep : BitVec 8)
  | resetEp (ep : BitVec 8)
  | setEpNak (ep : BitVec 8) (nak : Bool)
  | busyWait (usWait : ℕ)
  | stall (ep : BitVec 8) (stall toggle : Bool)
  | ackSetup
  | gpioSetValue (gpioId : ℕ) (value : Bool)

/-- What the functions of the firmware are made of. -/
inductive Op where
  | usb (call : UsbCall)
  /-- A call for a channel.  If it is `checked`, the error handler is called when it fails. -/
  | dma (f : Family) (call : DmaFunction) (h : Handle) (checked : Bool)
  /-- `glIsApplnActive = active`. -/
  | setActive (active : Bool)
  /-- `CyFxSlFifoApplnStop` returns. -/
  | stopped

/-- What is recorded of an operation. -/
structure Entry where
  op : Op
  /-- The channels before it. -/
  channels : Handle → Option DmaChannel
  /-- `glIsApplnActive` before it. -/
  active : Bool

/-- The state of the application. -/
structure App where
  channels : Handle → Option DmaChannel
  /-- `glIsApplnActive`. -/
  active : Bool
  /-- `CyFxAppErrorHandler` has been called, which never returns. -/
  hung : Bool
  /-- All operations so far. -/
  log : List Entry

/-- `CyU3PUsbGetSpeed`.  When the host sets a configuration the device is connected, so there is no
other case here. -/
inductive UsbSpeed where
  | full
  | high
  | super
  deriving DecidableEq

namespace UsbSpeed

/-- `size`, the packet size of the endpoints. -/
def size : UsbSpeed → ℕ
  | full => 64
  | high => 512
  | super => superSpeed

/-- `burstLength`. -/
def burstLength : UsbSpeed → ℕ
  | full => 0
  | high => 1
  | super => 16

end UsbSpeed

/-- `CY_FX_EP_PRODUCER`. -/
def epProducer : BitVec 8 := 0x01

/-- `CY_FX_EP_CONSUMER`. -/
def epConsumer : BitVec 8 := 0x81

/-- `CY_FX_SLFIFO_DMA_BUF_COUNT_U_2_P`. -/
def dmaBufCountUToP : ℕ := 1

/-- `CY_FX_SLFIFO_DMA_TX_SIZE`: no limit. -/
def dmaTxSize : ℕ := 0

/-- `CY_FX_SLFIFO_DMA_RX_SIZE`: no limit. -/
def dmaRxSize : ℕ := 0

/-- `dmaCfg`. -/
def dmaCfg (speed : UsbSpeed) : DmaConfig where
  size := dmaBufSize * speed.size
  count := dmaBufCountUToP
  prodSckId := [.uibProd 1]
  consSckId := [.pib 3]

/-- `dmaMultiCfg`. -/
def dmaMultiCfg (speed : UsbSpeed) : DmaConfig where
  size := dmaMultiCfgSize speed.size
  count := dmaBufCountPToU
  prodSckId := (List.range validSckCount).map SocketId.pib
  consSckId := [.uibCons 1]

/-- `epCfg` in `CyFxSlFifoApplnStart`. -/
def epCfg (speed : UsbSpeed) : EpConfig where
  enable := true
  bulk := true
  burstLen := speed.burstLength
  streams := 0
  pcktSize := speed.size

/-- `CyFxSlFifoApplnStart`. -/
def applnStart (speed : UsbSpeed) : List Op :=
  [.usb (.setEpConfig epProducer (epCfg speed)),
   .usb (.setEpConfig epConsumer (epCfg speed)),
   .dma .channel (.create (dmaCfg speed)) .uToP true,
   .dma .multiChannel (.create (dmaMultiCfg speed)) .pToU true,
   .usb (.flushEp epProducer),
   .usb (.flushEp epConsumer),
   .dma .channel (.setXfer dmaTxSize) .uToP true,
   .dma .multiChannel (.setXfer dmaRxSize) .pToU true,
   .setActive true,
   .usb (.gpioSetValue 59 false)]

/-- The body of `CyFxSlFifoApplnStop`. -/
def applnStopBody : List Op :=
  [.setActive false,
   .usb (.flushEp epProducer),
   .usb (.flushEp epConsumer),
   .dma .channel .destroy .uToP false,
   -- the handle of the multichannel, but not its function
   .dma .channel .destroy .pToU false,
   .usb (.setEpConfig epProducer .zero),
   .usb (.setEpConfig epConsumer .zero)]

/-- `CyFxSlFifoApplnStop`. -/
def applnStop : List Op := applnStopBody ++ [.stopped]

/-- `CLEAR_FEATURE(ENDPOINT_HALT)` for the producer endpoint. -/
def clearProducer : List Op :=
  [.usb (.setEpNak epProducer true),
   .usb (.busyWait 125),
   .dma .channel .reset .uToP false,
   .usb (.flushEp epProducer),
   .usb (.resetEp epProducer),
   .dma .channel (.setXfer dmaTxSize) .uToP false,
   .usb (.setEpNak epProducer false)]

/-- `CLEAR_FEATURE(ENDPOINT_HALT)` for the consumer endpoint. -/
def clearConsumer : List Op :=
  -- it is the producer endpoint that is made to answer NAK here, too
  [.usb (.setEpNak epProducer true),
   .usb (.busyWait 125),
   .dma .channel .reset .pToU false,
   .usb (.flushEp epConsumer),
   .usb (.resetEp epConsumer),
   .dma .channel (.setXfer dmaRxSize) .pToU false,
   .usb (.setEpNak epProducer false)]

/-- A setup request as `CyFxSlFifoApplnUSBSetupCB` decodes it. -/
structure Setup where
  bType : BitVec 8
  bTarget : BitVec 8
  bRequest : BitVec 8
  wValue : BitVec 16
  wIndex : BitVec 16

/-- The decoding of `setupdat0` and `setupdat1`. -/
def Setup.decode (setupdat0 setupdat1 : BitVec 32) : Setup where
  bType := setupdat0.setWidth 8 &&& 0x60
  bTarget := setupdat0.setWidth 8 &&& 0x03
  bRequest := (setupdat0 >>> 8).setWidth 8
  wValue := (setupdat0 >>> 16).setWidth 16
  wIndex := setupdat1.setWidth 16

namespace Setup

variable (r : Setup)

/-- The type is `CY_U3P_USB_STANDARD_RQT`. -/
def Standard : Prop := r.bType = 0x00

/-- `SET_FEATURE(FUNCTION_SUSPEND)` or `CLEAR_FEATURE(FUNCTION_SUSPEND)` for an interface. -/
def FunctionSuspend : Prop :=
  r.bTarget = 0x01 ∧ (r.bRequest = 0x03 ∨ r.bRequest = 0x01) ∧ r.wValue = 0

/-- `CLEAR_FEATURE(ENDPOINT_HALT)` for an endpoint. -/
def ClearHalt : Prop := r.bTarget = 0x02 ∧ r.bRequest = 0x01 ∧ r.wValue = 0

instance : Decidable r.Standard := inferInstanceAs (Decidable (_ = _))

instance : Decidable r.FunctionSuspend := inferInstanceAs (Decidable (_ ∧ _ ∧ _))

instance : Decidable r.ClearHalt := inferInstanceAs (Decidable (_ ∧ _ ∧ _))

/-- How `CyFxSlFifoApplnUSBSetupCB` answers the first kind of request, and whether it is handled;
`active` is `glIsApplnActive`. -/
def answerSuspend (active : Bool) : List Op × Bool :=
  if r.FunctionSuspend then
    (if active then [.usb .ackSetup] else [.usb (.stall 0 true false)], true)
  else ([], false)

/-- How it clears a halt. -/
def clearHalt : List Op :=
  (if r.wIndex = epProducer.setWidth 16 then clearProducer else []) ++
    (if r.wIndex = epConsumer.setWidth 16 then clearConsumer else []) ++
    [.usb (.stall (r.wIndex.setWidth 8) false true), .usb .ackSetup]

/-- `CyFxSlFifoApplnUSBSetupCB` and its result. -/
def callback (active : Bool) : List Op × Bool :=
  if r.Standard then
    if r.ClearHalt ∧ active = true then ((r.answerSuspend active).1 ++ r.clearHalt, true)
    else r.answerSuspend active
  else ([], false)

end Setup

/-- What the callbacks are called for. -/
inductive Event where
  /-- `CY_U3P_USB_EVENT_SETCONF`, at this speed. -/
  | setConf (speed : UsbSpeed)
  /-- `CY_U3P_USB_EVENT_RESET`. -/
  | reset
  /-- `CY_U3P_USB_EVENT_DISCONNECT`. -/
  | disconnect
  /-- Any other USB event. -/
  | other
  /-- A setup request. -/
  | setup (setupdat0 setupdat1 : BitVec 32)

/-- `CyFxSlFifoApplnUSBEventCB` and `CyFxSlFifoApplnUSBSetupCB`; `active` is `glIsApplnActive`,
which nothing changes before they test it. -/
def Event.callback (active : Bool) : Event → List Op
  | .setConf speed =>
    .usb .lpmDisable :: ((if active then applnStop else []) ++ applnStart speed)
  | .reset | .disconnect => if active then applnStop else []
  | .other => []
  | .setup setupdat0 setupdat1 => ((Setup.decode setupdat0 setupdat1).callback active).1

namespace Sdk

variable (sdk : Sdk)

/-- One operation. -/
def exec (s : App) (op : Op) : App :=
  if s.hung then s
  else
    let next := { s with log := s.log ++ [⟨op, s.channels, s.active⟩] }
    match op with
    | .usb _ => next
    | .dma f call h checked =>
      { next with
        channels := Function.update s.channels h (sdk.dma f call (s.channels h)).2
        hung := checked && !(sdk.dma f call (s.channels h)).1 }
    | .setActive active => { next with active := active }
    | .stopped => next

/-- Some operations. -/
def execAll (s : App) (ops : List Op) : App := ops.foldl sdk.exec s

/-- One event. -/
def handle (s : App) (e : Event) : App := sdk.execAll s (e.callback s.active)

/-- The application before the first event. -/
def init : App where
  channels := fun _ ↦ none
  active := false
  hung := false
  log := []

/-- The application after a sequence of events. -/
def run (es : List Event) : App := es.foldl sdk.handle init

end Sdk

/-! ## The lifecycle -/

/-- Both handles are live. -/
def Live (channels : Handle → Option DmaChannel) : Prop := ∀ h, (channels h).isSome

/-- What must hold when an operation is begun. -/
structure Entry.Ok (x : Entry) : Prop where
  /-- A handle that is created is not live. -/
  create : ∀ f cfg h checked, x.op = .dma f (.create cfg) h checked → x.channels h = none
  /-- After `CyFxSlFifoApplnStop` no channel is live. -/
  stopped : x.op = .stopped → ∀ h, x.channels h = none
  /-- While the application is active both channels are live. -/
  active : x.active = true → Live x.channels

/-- The channels are used as they should. -/
structure Lifecycle (sdk : Sdk) (es : List Event) : Prop where
  /-- In each operation, -/
  ops : ∀ x ∈ (sdk.run es).log, x.Ok
  /-- and whenever the application waits for an event and is active, both channels are live with a
  transfer armed. -/
  armed : ∀ es' rest, es = es' ++ rest → (sdk.run es').active = true →
    ∀ h, ∃ f, (sdk.run es').channels h = some ⟨f, true⟩

/-- The events that stop an active application. -/
def Event.Stops : Event → Prop
  | .setConf _ | .reset | .disconnect => True
  | .other | .setup _ _ => False

/-- The host has set a configuration. -/
def Configured (es : List Event) : Prop := ∃ speed, .setConf speed ∈ es

/-- The application is never to be stopped: no such event comes after a SETCONF. -/
def NeverStopped (es : List Event) : Prop := Always (fun pre e ↦ e.Stops → ¬ Configured pre) es

/-! ## Rules for sequences of operations -/

/-- The state, apart from the log. -/
structure App.At (s : App) (c : Handle → Option DmaChannel) (a : Bool) : Prop where
  channels : s.channels = c
  active : s.active = a
  hung : s.hung = false
  /-- An active application has its channels. -/
  live : a = true → Live c

/-- From one state to another, all operations in between being in order. -/
def Sdk.Does (sdk : Sdk) (c : Handle → Option DmaChannel) (a : Bool) (ops : List Op)
    (c' : Handle → Option DmaChannel) (a' : Bool) : Prop :=
  ∀ s, s.At c a → (sdk.execAll s ops).At c' a' ∧
    ∃ entries, (sdk.execAll s ops).log = s.log ++ entries ∧ ∀ x ∈ entries, x.Ok

section rules

variable {sdk : Sdk} {c c' : Handle → Option DmaChannel} {a a' : Bool} {ops ops' : List Op}

theorem Live.update (h : Live c) (k : Handle) (x : DmaChannel) :
    Live (Function.update c k (some x)) := by
  intro h'
  by_cases hk : h' = k
  · rw [hk, Function.update_self, Option.isSome_some]
  · rw [Function.update_of_ne hk]
    exact h h'

/-- **One operation**, when the error handler has not been called. -/
theorem Sdk.exec_of_not_hung {s : App} (h : s.hung = false) (op : Op) :
    (sdk.exec s op).log = s.log ++ [⟨op, s.channels, s.active⟩] := by
  rw [Sdk.exec, h]
  cases op <;> rfl

theorem Sdk.Does.nil : sdk.Does c a [] c a := fun s hs ↦
  ⟨hs, [], (List.append_nil s.log).symm, fun _ hx ↦ absurd hx List.not_mem_nil⟩

/-- An operation that is in order comes first. -/
theorem Sdk.Does.cons {op : Op} {c₁ : Handle → Option DmaChannel} {a₁ : Bool}
    (hop : ∀ s : App, s.At c a → (sdk.exec s op).At c₁ a₁)
    (hok : (a = true → Live c) → (⟨op, c, a⟩ : Entry).Ok) (h : sdk.Does c₁ a₁ ops c' a') :
    sdk.Does c a (op :: ops) c' a' := by
  intro s hs
  obtain ⟨hs', entries, hlog, hentries⟩ := h _ (hop s hs)
  refine ⟨hs', ⟨op, c, a⟩ :: entries, ?_, List.forall_mem_cons.mpr ⟨hok hs.live, hentries⟩⟩
  show (sdk.execAll (sdk.exec s op) ops).log = _
  rw [hlog, Sdk.exec_of_not_hung hs.hung, hs.channels, hs.active, List.append_assoc]
  rfl

theorem Sdk.Does.append {c₁ : Handle → Option DmaChannel} {a₁ : Bool}
    (h : sdk.Does c a ops c₁ a₁) (h' : sdk.Does c₁ a₁ ops' c' a') :
    sdk.Does c a (ops ++ ops') c' a' := by
  intro s hs
  obtain ⟨hs₁, l, hl, hlok⟩ := h s hs
  obtain ⟨hs', l', hl', hlok'⟩ := h' _ hs₁
  rw [Sdk.execAll, List.foldl_append]
  refine ⟨hs', l ++ l', ?_, List.forall_mem_append.mpr ⟨hlok, hlok'⟩⟩
  rw [← List.append_assoc, ← hl]
  exact hl'

theorem Sdk.Does.usb {call : UsbCall} (h : sdk.Does c a ops c' a') :
    sdk.Does c a (.usb call :: ops) c' a' := by
  refine .cons (fun s hs ↦ ?_) (fun hlive ↦ ⟨nofun, nofun, hlive⟩) h
  rw [Sdk.exec, hs.hung]
  exact ⟨hs.channels, hs.active, rfl, hs.live⟩

theorem Sdk.Does.setActive {b : Bool} (hb : b = true → Live c) (h : sdk.Does c b ops c' a') :
    sdk.Does c a (.setActive b :: ops) c' a' := by
  refine .cons (fun s hs ↦ ?_) (fun hlive ↦ ⟨nofun, nofun, hlive⟩) h
  rw [Sdk.exec, hs.hung]
  exact ⟨hs.channels, rfl, rfl, hb⟩

/-- A call for a channel that succeeds, or is not checked. -/
theorem Sdk.Does.dma {f : Family} {call : DmaFunction} {k : Handle} {checked : Bool}
    {x : Option DmaChannel} (hchannel : (sdk.dma f call (c k)).2 = x)
    (hresult : checked = true → (sdk.dma f call (c k)).1 = true)
    (hlive : a = true → Live c → Live (Function.update c k x))
    (hcreate : ∀ cfg, call = .create cfg → c k = none)
    (h : sdk.Does (Function.update c k x) a ops c' a') :
    sdk.Does c a (.dma f call k checked :: ops) c' a' := by
  refine .cons (fun s hs ↦ ?_) (fun hlive ↦ ⟨fun f' cfg h' ch heq ↦ ?_, nofun, hlive⟩) h
  · rw [Sdk.exec, hs.hung]
    refine ⟨?_, hs.active, ?_, fun ha ↦ hlive ha (hs.live ha)⟩
    · show Function.update s.channels k (sdk.dma f call (s.channels k)).2 = _
      rw [hs.channels, hchannel]
    · show (checked && !(sdk.dma f call (s.channels k)).1) = false
      rw [hs.channels]
      cases checked with
      | false => rfl
      | true => rw [hresult rfl]; rfl
  · cases heq
    exact hcreate cfg rfl

theorem Sdk.Does.create {f : Family} {cfg : DmaConfig} {k : Handle} {checked : Bool}
    (hk : c k = none) (h : sdk.Does (Function.update c k (some ⟨f, false⟩)) a ops c' a') :
    sdk.Does c a (.dma f (.create cfg) k checked :: ops) c' a' :=
  .dma (by rw [hk, sdk.create]) (fun _ ↦ by rw [hk, sdk.create]) (fun _ hlive ↦ hlive.update k _)
    (fun _ _ ↦ hk) h

theorem Sdk.Does.setXfer {f : Family} {n : ℕ} {k : Handle} {checked : Bool}
    (hk : c k = some ⟨f, false⟩) (h : sdk.Does (Function.update c k (some ⟨f, true⟩)) a ops c' a') :
    sdk.Does c a (.dma f (.setXfer n) k checked :: ops) c' a' :=
  .dma (by rw [hk, sdk.setXfer]) (fun _ ↦ by rw [hk, sdk.setXfer])
    (fun _ hlive ↦ hlive.update k _) nofun h

theorem Sdk.Does.reset {f : Family} {armed : Bool} {k : Handle} {checked : Bool}
    (hk : c k = some ⟨f, armed⟩)
    (h : sdk.Does (Function.update c k (some ⟨f, false⟩)) a ops c' a') :
    sdk.Does c a (.dma f .reset k checked :: ops) c' a' :=
  .dma (by rw [hk, sdk.reset]) (fun _ ↦ by rw [hk, sdk.reset]) (fun _ hlive ↦ hlive.update k _)
    nofun h

theorem Sdk.Does.destroy {f : Family} {armed : Bool} {k : Handle} {checked : Bool}
    (hk : c k = some ⟨f, armed⟩) (ha : a = false)
    (h : sdk.Does (Function.update c k none) a ops c' a') :
    sdk.Does c a (.dma f .destroy k checked :: ops) c' a' :=
  .dma (by rw [hk, sdk.destroy]) (fun _ ↦ by rw [hk, sdk.destroy])
    (fun ha' ↦ absurd (ha.symm.trans ha') Bool.false_ne_true) nofun h

/-- A call of the wrong family changes nothing. -/
theorem Sdk.Does.other {f : Family} {call : DmaFunction} {k : Handle} {x : DmaChannel}
    (hk : c k = some x) (hf : f ≠ x.family) (hcall : ∀ cfg, call ≠ .create cfg)
    (h : sdk.Does c a ops c' a') : sdk.Does c a (.dma f call k false :: ops) c' a' := by
  refine .dma (x := some x) (by rw [hk, sdk.other f call x hf])
    (fun h ↦ absurd h Bool.false_ne_true) (fun _ hlive ↦ hlive.update k x)
    (fun cfg heq ↦ absurd heq (hcall cfg)) ?_
  rwa [← hk, Function.update_eq_self]

end rules

/-! ## The functions of the firmware -/

/-- No channel is live. -/
def dead : Handle → Option DmaChannel := fun _ ↦ none

/-- Both channels, armed. -/
def armed : Handle → Option DmaChannel
  | .uToP => some ⟨.channel, true⟩
  | .pToU => some ⟨.multiChannel, true⟩

/-- What `CyFxSlFifoApplnStop` leaves of them. -/
def leftOver : Handle → Option DmaChannel
  | .uToP => none
  | .pToU => some ⟨.multiChannel, true⟩

/-- The channels are determined handle by handle. -/
theorem channels_ext {c c' : Handle → Option DmaChannel} (huToP : c .uToP = c' .uToP)
    (hpToU : c .pToU = c' .pToU) : c = c' := by
  funext h
  cases h with
  | uToP => exact huToP
  | pToU => exact hpToU

theorem live_armed : Live armed := fun h ↦ by cases h <;> rfl

section functions

variable (sdk : Sdk)

/-- **`CyFxSlFifoApplnStart` creates and arms both channels**, if neither is live. -/
theorem does_applnStart (speed : UsbSpeed) :
    sdk.Does dead false (applnStart speed) armed true := by
  refine .usb (.usb (.create rfl (.create rfl (.usb (.usb (.setXfer rfl (.setXfer rfl ?_)))))))
  have hc : Function.update (Function.update (Function.update (Function.update dead .uToP
      (some ⟨.channel, false⟩)) .pToU (some ⟨.multiChannel, false⟩)) .uToP
      (some ⟨.channel, true⟩)) .pToU (some ⟨.multiChannel, true⟩) = armed := channels_ext rfl rfl
  rw [hc]
  exact .setActive (fun _ ↦ live_armed) (.usb .nil)

/-- **`CyFxSlFifoApplnStop` destroys only the channel of the U-to-P direction.** -/
theorem does_applnStopBody : sdk.Does armed true applnStopBody leftOver false := by
  refine .setActive nofun (.usb (.usb (.destroy rfl rfl (.other rfl nofun nofun (.usb (.usb ?_))))))
  have hc : Function.update armed .uToP none = leftOver := channels_ext rfl rfl
  rw [hc]
  exact .nil

theorem does_clearProducer : sdk.Does armed true clearProducer armed true := by
  refine .usb (.usb (.reset rfl (.usb (.usb (.setXfer rfl (.usb ?_))))))
  have hc : Function.update (Function.update armed .uToP (some ⟨.channel, false⟩)) .uToP
      (some ⟨.channel, true⟩) = armed := channels_ext rfl rfl
  rw [hc]
  exact .nil

theorem does_clearConsumer : sdk.Does armed true clearConsumer armed true :=
  .usb (.usb (.other rfl nofun nofun (.usb (.usb (.other rfl nofun nofun (.usb .nil))))))

/-- Answering a request for an interface does nothing to the channels. -/
theorem does_answerSuspend (r : Setup) (c : Handle → Option DmaChannel) (a : Bool) :
    sdk.Does c a (r.answerSuspend a).1 c a := by
  rw [Setup.answerSuspend]
  split
  · cases a with
    | true => exact .usb .nil
    | false => exact .usb .nil
  · exact .nil

/-- **Clearing a halt leaves the channels armed.** -/
theorem does_clearHalt (r : Setup) : sdk.Does armed true r.clearHalt armed true := by
  have hproducer : sdk.Does armed true
      (if r.wIndex = epProducer.setWidth 16 then clearProducer else []) armed true := by
    split
    · exact does_clearProducer sdk
    · exact .nil
  have hconsumer : sdk.Does armed true
      (if r.wIndex = epConsumer.setWidth 16 then clearConsumer else []) armed true := by
    split
    · exact does_clearConsumer sdk
    · exact .nil
  exact (hproducer.append hconsumer).append (.usb (.usb .nil))

/-- So does every setup request, -/
theorem does_callback_armed (r : Setup) : sdk.Does armed true (r.callback true).1 armed true := by
  rw [Setup.callback]
  split
  · split
    · exact .append (does_answerSuspend sdk r armed true) (does_clearHalt sdk r)
    · exact does_answerSuspend sdk r armed true
  · exact .nil

/-- and while the application is not active it does nothing to them. -/
theorem does_callback_dead (r : Setup) : sdk.Does dead false (r.callback false).1 dead false := by
  rw [Setup.callback]
  split
  · rw [if_neg fun h ↦ Bool.false_ne_true h.2]
    exact does_answerSuspend sdk r dead false
  · exact .nil

end functions

/-! ## Runs -/

section runs

variable {sdk : Sdk} {es : List Event} {e : Event} {s : App}

/-- What is recorded stays recorded. -/
theorem Sdk.log_execAll (s : App) (ops : List Op) : s.log <+: (sdk.execAll s ops).log := by
  induction ops generalizing s with
  | nil => exact List.prefix_rfl
  | cons op ops ih =>
    refine List.IsPrefix.trans ?_ (ih (sdk.exec s op))
    cases hs : s.hung with
    | false => exact ⟨_, (Sdk.exec_of_not_hung hs op).symm⟩
    | true => rw [Sdk.exec, hs, if_pos rfl]

theorem Sdk.run_concat : sdk.run (es ++ [e]) = sdk.handle (sdk.run es) e := by
  rw [Sdk.run, List.foldl_append]
  rfl

theorem configured_concat :
    Configured (es ++ [e]) ↔ Configured es ∨ ∃ speed, e = .setConf speed := by
  simp [Configured, exists_or, eq_comm]

theorem Lifecycle.of_concat (h : Lifecycle sdk (es ++ [e])) : Lifecycle sdk es where
  ops x hx := h.ops x (by rw [Sdk.run_concat]; exact (sdk.log_execAll _ _).subset hx)
  armed es' rest heq := h.armed es' (rest ++ [e]) (by rw [heq, List.append_assoc])

/-- One more event, after which the channels are armed if the application is active. -/
theorem Lifecycle.concat (h : Lifecycle sdk es) {c' : Handle → Option DmaChannel} {a' : Bool}
    {c : Handle → Option DmaChannel} {a : Bool} (hs : (sdk.run es).At c a)
    (hdoes : sdk.Does c a (e.callback a) c' a')
    (harmed : a' = true → ∀ h, ∃ f, c' h = some ⟨f, true⟩) :
    Lifecycle sdk (es ++ [e]) ∧ (sdk.run (es ++ [e])).At c' a' := by
  obtain ⟨hs', entries, hlog, hok⟩ := hdoes _ hs
  have hrun : sdk.run (es ++ [e]) = sdk.execAll (sdk.run es) (e.callback a) := by
    rw [Sdk.run_concat, Sdk.handle, hs.active]
  refine ⟨⟨?_, fun es' rest heq hactive ↦ ?_⟩, hrun ▸ hs'⟩
  · rw [hrun, hlog]
    exact List.forall_mem_append.mpr ⟨h.ops, hok⟩
  · rcases List.eq_nil_or_concat rest with rfl | ⟨rest', y, rfl⟩
    · rw [List.append_nil] at heq
      subst heq
      rw [hrun, hs'.active] at hactive
      rw [hrun, hs'.channels]
      exact harmed hactive
    · rw [List.concat_eq_append, ← List.append_assoc] at heq
      exact h.armed es' rest' (List.append_inj' heq rfl).1 hactive

/-- **A run in which the application is never to be stopped**: nothing happens until it is
started, and then the channels stay armed. -/
structure Follows (sdk : Sdk) (es : List Event) : Prop where
  lifecycle : Lifecycle sdk es
  dead : ¬ Configured es → (sdk.run es).At dead false
  armed : Configured es → (sdk.run es).At armed true

theorem armed_armed (h : Handle) : ∃ f, Fx3.armed h = some ⟨f, true⟩ := by
  cases h with
  | uToP => exact ⟨.channel, rfl⟩
  | pToU => exact ⟨.multiChannel, rfl⟩

theorem follows_nil (sdk : Sdk) : Follows sdk [] where
  lifecycle := ⟨fun _ hx ↦ absurd hx List.not_mem_nil, fun es' rest heq ↦ by
    rw [(List.append_eq_nil_iff.mp heq.symm).1]
    exact nofun⟩
  dead _ := ⟨rfl, rfl, rfl, nofun⟩
  armed h := absurd h.choose_spec List.not_mem_nil

/-- **One event.** -/
theorem Follows.concat (h : Follows sdk es) (he : e.Stops → ¬ Configured es) :
    Follows sdk (es ++ [e]) := by
  by_cases hc : Configured es
  · -- the channels are armed, and only requests and other events can come
    have hdoes : sdk.Does Fx3.armed true (e.callback true) Fx3.armed true := by
      cases e with
      | setConf | reset | disconnect => exact absurd hc (he trivial)
      | other => exact .nil
      | setup setupdat0 setupdat1 => exact does_callback_armed sdk _
    obtain ⟨hl, hs⟩ := h.lifecycle.concat (h.armed hc) hdoes fun _ ↦ armed_armed
    exact ⟨hl, fun hn ↦ absurd (configured_concat.mpr (.inl hc)) hn, fun _ ↦ hs⟩
  · by_cases hset : ∃ speed, e = .setConf speed
    · obtain ⟨speed, rfl⟩ := hset
      have hdoes : sdk.Does Fx3.dead false ((Event.setConf speed).callback false) Fx3.armed true :=
        .usb (does_applnStart sdk speed)
      obtain ⟨hl, hs⟩ := h.lifecycle.concat (h.dead hc) hdoes fun _ ↦ armed_armed
      exact ⟨hl, fun hn ↦ absurd (configured_concat.mpr (.inr ⟨speed, rfl⟩)) hn, fun _ ↦ hs⟩
    · have hdoes : sdk.Does Fx3.dead false (e.callback false) Fx3.dead false := by
        cases e with
        | setConf speed => exact absurd ⟨speed, rfl⟩ hset
        | reset | disconnect | other => exact .nil
        | setup setupdat0 setupdat1 => exact does_callback_dead sdk _
      obtain ⟨hl, hs⟩ := h.lifecycle.concat (h.dead hc) hdoes nofun
      exact ⟨hl, fun _ ↦ hs, fun hn ↦ absurd (configured_concat.mp hn) (not_or.mpr ⟨hc, hset⟩)⟩

/-- **Stopping an active application leaves the multichannel live.** -/
theorem not_ok_of_applnStop (sdk : Sdk) (hs : s.At armed true) (ops : List Op) :
    ¬ ∀ x ∈ (sdk.execAll s (applnStop ++ ops)).log, x.Ok := by
  obtain ⟨hbody, -⟩ := does_applnStopBody sdk s hs
  intro hok
  have hmem : (⟨.stopped, leftOver, false⟩ : Entry) ∈ (sdk.execAll s (applnStop ++ ops)).log := by
    rw [applnStop, List.append_assoc, Sdk.execAll, List.foldl_append]
    refine (sdk.log_execAll _ ops).subset ?_
    show _ ∈ (sdk.exec (sdk.execAll s applnStopBody) .stopped).log
    rw [Sdk.exec_of_not_hung hbody.hung, hbody.channels, hbody.active]
    exact List.mem_append_right _ List.mem_cons_self
  exact Option.some_ne_none _ ((hok _ hmem).stopped rfl .pToU)

theorem Follows.not_lifecycle_concat (h : Follows sdk es) (hc : Configured es) (he : e.Stops) :
    ¬ Lifecycle sdk (es ++ [e]) := by
  intro hl
  have hops := hl.ops
  have hs := h.armed hc
  rw [Sdk.run_concat, Sdk.handle, hs.active] at hops
  cases e with
  | setConf speed =>
    obtain ⟨hs', -⟩ := (Sdk.Does.usb .nil : sdk.Does _ true [.usb .lpmDisable] _ true) _ hs
    exact not_ok_of_applnStop sdk hs' _ hops
  | reset | disconnect =>
    have hnil := not_ok_of_applnStop sdk hs []
    rw [List.append_nil] at hnil
    exact hnil hops
  | other | setup => exact he

/-- **When the lifecycle is right**: as long as the application is never to be stopped. -/
theorem lifecycle_iff (sdk : Sdk) (es : List Event) : Lifecycle sdk es ↔ NeverStopped es := by
  have hboth : (NeverStopped es → Follows sdk es) ∧ (Lifecycle sdk es → NeverStopped es) := by
    induction es using List.reverseRecOn with
    | nil => exact ⟨fun _ ↦ follows_nil sdk, fun _ ↦ always_nil⟩
    | append_singleton es e ih =>
      obtain ⟨ih₁, ih₂⟩ := ih
      refine ⟨fun hn ↦ ?_, fun hl ↦ ?_⟩
      · obtain ⟨hn', he⟩ := always_concat.mp hn
        exact (ih₁ hn').concat he
      · have hn := ih₂ hl.of_concat
        exact always_concat.mpr ⟨hn, fun he hc ↦ (ih₁ hn).not_lifecycle_concat hc he hl⟩
  exact ⟨hboth.2, fun hn ↦ (hboth.1 hn).lifecycle⟩

end runs

/-! ### A bus reset -/

/-- An SDK that checks everything: an illegal call fails and changes nothing. -/
def strict : Sdk where
  dma
    | f, .create _, none => (true, some ⟨f, false⟩)
    | f, .setXfer _, some c =>
      if f = c.family ∧ c.armed = false then (true, some ⟨f, true⟩) else (false, some c)
    | f, .reset, some c => if f = c.family then (true, some ⟨f, false⟩) else (false, some c)
    | f, .destroy, some c => if f = c.family then (true, none) else (false, some c)
    | _, _, c => (false, c)
  create _ _ := rfl
  setXfer _ _ := if_pos ⟨rfl, rfl⟩
  reset _ _ := if_pos rfl
  destroy _ _ := if_pos rfl
  other f call c hf := by
    cases call with
    | create => rfl
    | setXfer => exact congrArg Prod.snd (if_neg fun h ↦ hf h.1)
    | reset | destroy => exact congrArg Prod.snd (if_neg hf)

/-- **A bus reset after the first configuration.** -/
theorem not_lifecycle_reset : ¬ Lifecycle strict [.setConf .super, .reset] := by
  have hconfigured : Follows strict [.setConf .super] :=
    (follows_nil strict).concat fun _ hc ↦ absurd hc.choose_spec List.not_mem_nil
  exact hconfigured.not_lifecycle_concat ⟨.super, List.mem_cons_self⟩ trivial

end Fx3
end Usb3FpgaCard
