import Usb3FpgaCard.Fx3.Lifecycle

/-!
# Clearing a halt: `CyFxSlFifoApplnUSBSetupCB`

The host clears the halt of one endpoint while it may go on using the other.  The firmware makes an
endpoint answer NAK, resets the endpoint's DMA channel, flushes its FIFO, resets the endpoint, and
lets it answer again.  It does so for the producer endpoint.  For the consumer endpoint it does all
of this but the first and the last: it is the producer endpoint that answers NAK meanwhile, and the
consumer endpoint goes on (`haltCleared_iff`).

The host does not wait for the firmware, so between two operations anything can come into a FIFO or
leave it.
-/

set_option autoImplicit false

namespace Usb3FpgaCard
namespace Fx3

/-! ## Endpoints -/

/-- What an endpoint of the USB block holds. -/
structure EpState where
  /-- It answers NAK. -/
  nak : Bool
  /-- The data in its FIFO. -/
  fifo : List (BitVec 8)

/-- The application, and the endpoints by address. -/
structure Chip where
  app : App
  endpoints : BitVec 8 → EpState

/-- What a call does to the endpoints. -/
def UsbCall.onEndpoints (endpoints : BitVec 8 → EpState) : UsbCall → BitVec 8 → EpState
  | .setEpNak ep nak => Function.update endpoints ep { endpoints ep with nak := nak }
  | .flushEp ep => Function.update endpoints ep { endpoints ep with fifo := [] }
  | _ => endpoints

/-- What an operation does to them. -/
def Op.onEndpoints (endpoints : BitVec 8 → EpState) : Op → BitVec 8 → EpState
  | .usb call => call.onEndpoints endpoints
  | _ => endpoints

/-- One operation of the firmware. -/
def Sdk.step (sdk : Sdk) (c : Chip) (op : Op) : Chip where
  app := sdk.exec c.app op
  endpoints := if c.app.hung then c.endpoints else op.onEndpoints c.endpoints

/-- Traffic between two operations. -/
structure Chip.Traffic (c c' : Chip) : Prop where
  app : c'.app = c.app
  nak : ∀ ep, (c'.endpoints ep).nak = (c.endpoints ep).nak

theorem Chip.Traffic.none (c : Chip) : c.Traffic c := ⟨rfl, fun _ ↦ rfl⟩

/-- An operation in its place. -/
structure Step where
  before : Chip
  op : Op
  after : Chip

/-- Some operations of the firmware with traffic before, between and after them. -/
inductive Sdk.Executes (sdk : Sdk) : Chip → List Op → List Step → Chip → Prop
  | nil {c c' : Chip} (traffic : c.Traffic c') : sdk.Executes c [] [] c'
  | cons {c c₁ c' : Chip} {op : Op} {ops : List Op} {steps : List Step} (traffic : c.Traffic c₁)
      (rest : sdk.Executes (sdk.step c₁ op) ops steps c') :
      sdk.Executes c (op :: ops) (⟨c₁, op, sdk.step c₁ op⟩ :: steps) c'

/-! ## What is asked for -/

/-- The two endpoints with their channels. -/
inductive Pipe where
  /-- `CY_FX_EP_PRODUCER` and `glChHandleSlFifoUtoP`. -/
  | producer
  /-- `CY_FX_EP_CONSUMER` and `glChHandleSlFifoPtoU`. -/
  | consumer
  deriving DecidableEq

namespace Pipe

def ep : Pipe → BitVec 8
  | producer => epProducer
  | consumer => epConsumer

def handle : Pipe → Handle
  | producer => .uToP
  | consumer => .pToU

def other : Pipe → Pipe
  | producer => consumer
  | consumer => producer

end Pipe

/-- The operation resets the channel of the pipe, flushes its FIFO or resets its endpoint. -/
def Op.Resets (p : Pipe) : Op → Prop
  | .dma _ .reset h _ => h = p.handle
  | .usb (.flushEp ep) | .usb (.resetEp ep) => ep = p.ep
  | _ => False

/-- The halt of the pipe is cleared by these operations as it should, whatever the traffic. -/
structure HaltCleared (sdk : Sdk) (c : Chip) (ops : List Op) (p : Pipe) : Prop where
  /-- The endpoint answers NAK while its pipe is reset, -/
  stopped : ∀ steps c', sdk.Executes c ops steps c' → ∀ x ∈ steps, x.op.Resets p →
    (x.before.endpoints p.ep).nak = true
  /-- but not in the end, -/
  released : ∀ steps c', sdk.Executes c ops steps c' → (c'.endpoints p.ep).nak = false
  /-- and the other pipe is left alone. -/
  other : ∀ steps c', sdk.Executes c ops steps c' → ∀ x ∈ steps,
    x.after.endpoints p.other.ep = x.before.endpoints p.other.ep ∧
      x.after.app.channels p.other.handle = x.before.app.channels p.other.handle

/-- The request clears the halt of this pipe. -/
structure Setup.ClearsHaltOf (r : Setup) (p : Pipe) : Prop where
  standard : r.Standard
  clearHalt : r.ClearHalt
  wIndex : r.wIndex = p.ep.setWidth 16

/-! ## Executions -/

section executions

variable {sdk : Sdk} {c c' : Chip} {op : Op} {ops ops' : List Op} {steps : List Step} {p : Pipe}
  {ep : BitVec 8}

/-- Any operations can be executed, for example without traffic. -/
theorem Sdk.exists_executes (c : Chip) (ops : List Op) :
    ∃ steps c', sdk.Executes c ops steps c' := by
  induction ops generalizing c with
  | nil => exact ⟨[], c, .nil (.none c)⟩
  | cons op ops ih =>
    obtain ⟨steps, c', h⟩ := ih (sdk.step c op)
    exact ⟨_, c', .cons (.none c) h⟩

theorem Sdk.Executes.map_op (h : sdk.Executes c ops steps c') : steps.map Step.op = ops := by
  induction h with
  | nil => rfl
  | cons _ _ ih => rw [List.map_cons, ih]

theorem Sdk.Executes.after_eq (h : sdk.Executes c ops steps c') :
    ∀ x ∈ steps, x.after = sdk.step x.before x.op := by
  induction h with
  | nil => exact fun x hx ↦ absurd hx List.not_mem_nil
  | cons _ _ ih => exact List.forall_mem_cons.mpr ⟨rfl, ih⟩

theorem Sdk.Executes.append_inv (h : sdk.Executes c (ops ++ ops') steps c') :
    ∃ c₁ steps₁ steps₂, sdk.Executes c ops steps₁ c₁ ∧ sdk.Executes c₁ ops' steps₂ c' ∧
      steps = steps₁ ++ steps₂ := by
  induction ops generalizing c steps with
  | nil => exact ⟨c, [], steps, .nil (.none c), h, rfl⟩
  | cons op ops ih =>
    cases h with
    | cons traffic rest =>
      obtain ⟨c₁, steps₁, steps₂, h₁, h₂, rfl⟩ := ih rest
      exact ⟨c₁, _, steps₂, .cons traffic h₁, h₂, rfl⟩

/-- The operation does not set or clear the NAK of the endpoint. -/
def Op.KeepsNak (ep : BitVec 8) : Op → Prop
  | .usb (.setEpNak ep' _) => ep' ≠ ep
  | _ => True

theorem nak_step (h : op.KeepsNak ep) :
    ((sdk.step c op).endpoints ep).nak = (c.endpoints ep).nak := by
  rw [Sdk.step]
  split
  · rfl
  cases op with
  | usb call =>
    cases call with
    | setEpNak ep' nak =>
      exact congrArg EpState.nak (Function.update_of_ne (Ne.symm h) _ _)
    | flushEp ep' =>
      by_cases hep : ep = ep'
      · subst hep
        show (Function.update c.endpoints ep _ ep).nak = _
        rw [Function.update_self]
      · exact congrArg EpState.nak (Function.update_of_ne hep _ _)
    | _ => rfl
  | _ => rfl

/-- **An endpoint whose NAK is never set or cleared** answers all the time as at first. -/
theorem Sdk.Executes.nak_eq (h : sdk.Executes c ops steps c') (hops : ∀ op ∈ ops, op.KeepsNak ep) :
    (c'.endpoints ep).nak = (c.endpoints ep).nak ∧
      ∀ x ∈ steps, (x.before.endpoints ep).nak = (c.endpoints ep).nak := by
  induction h with
  | nil traffic => exact ⟨traffic.nak ep, fun x hx ↦ absurd hx List.not_mem_nil⟩
  | cons traffic rest ih =>
    obtain ⟨hop, hops'⟩ := List.forall_mem_cons.mp hops
    obtain ⟨hend, hsteps⟩ := ih hops'
    rw [nak_step hop, traffic.nak] at hend hsteps
    exact ⟨hend, List.forall_mem_cons.mpr ⟨traffic.nak ep, hsteps⟩⟩

/-- The operation names neither the endpoint nor the channel of the pipe. -/
def Op.Spares (p : Pipe) : Op → Prop
  | .usb (.setEpNak ep _) | .usb (.flushEp ep) => ep ≠ p.ep
  | .dma _ _ h _ => h ≠ p.handle
  | _ => True

/-- **A pipe that is not named** is left alone. -/
theorem step_of_spares (h : op.Spares p) :
    (sdk.step c op).endpoints p.ep = c.endpoints p.ep ∧
      (sdk.step c op).app.channels p.handle = c.app.channels p.handle := by
  rw [Sdk.step, Sdk.exec]
  split
  · exact ⟨rfl, rfl⟩
  cases op with
  | usb call =>
    refine ⟨?_, rfl⟩
    cases call with
    | setEpNak | flushEp => exact Function.update_of_ne (Ne.symm h) _ _
    | _ => rfl
  | dma => exact ⟨rfl, Function.update_of_ne (Ne.symm h) _ _⟩
  | setActive | stopped => exact ⟨rfl, rfl⟩

/-- Setting or clearing the NAK of an endpoint. -/
theorem Sdk.Executes.nak_of_setEpNak {nak : Bool}
    (h : sdk.Executes c [.usb (.setEpNak ep nak)] steps c') (hung : c.app.hung = false) :
    (c'.endpoints ep).nak = nak := by
  cases h with
  | @cons _ c₁ _ _ _ _ traffic rest =>
    cases rest with
    | nil traffic' =>
      rw [traffic'.nak, Sdk.step, traffic.app, hung]
      exact congrArg EpState.nak (Function.update_self ep _ c₁.endpoints)

end executions

/-! ## The error handler -/

/-- A failure of the operation is ignored. -/
def Op.Unchecked : Op → Prop
  | .dma _ _ _ checked => checked = false
  | _ => True

/-- The operation does not activate the application. -/
def Op.KeepsInactive : Op → Prop
  | .setActive active => active = false
  | _ => True

/-- The error handler is not called in an active application. -/
def App.Sound (s : App) : Prop := s.hung = true → s.active = false

section errors

variable {sdk : Sdk} {s : App} {c c' : Chip} {op : Op} {ops : List Op} {steps : List Step}

theorem hung_exec (hop : op.Unchecked) : (sdk.exec s op).hung = s.hung := by
  rw [Sdk.exec]
  split
  · rfl
  · next hs =>
    cases op with
    | usb | setActive | stopped => rfl
    | dma f call h checked =>
      cases hop
      exact ((Bool.not_eq_true s.hung).mp hs).symm

theorem active_exec (hop : op.KeepsInactive) (hs : s.active = false) :
    (sdk.exec s op).active = false := by
  rw [Sdk.exec]
  split
  · exact hs
  cases op with
  | usb | dma | stopped => exact hs
  | setActive active => exact hop

theorem active_execAll (hops : ∀ op ∈ ops, op.KeepsInactive) (hs : s.active = false) :
    (sdk.execAll s ops).active = false := by
  induction ops generalizing s with
  | nil => exact hs
  | cons op ops ih =>
    obtain ⟨hop, hops'⟩ := List.forall_mem_cons.mp hops
    exact ih hops' (active_exec hop hs)

theorem App.Sound.exec (h : s.Sound) (hop : op.Unchecked) : (sdk.exec s op).Sound := by
  intro hhung
  have hs : s.hung = true := (hung_exec hop).symm.trans hhung
  rw [Sdk.exec, if_pos hs]
  exact h hs

theorem App.Sound.execAll (h : s.Sound) (hops : ∀ op ∈ ops, op.Unchecked) :
    (sdk.execAll s ops).Sound := by
  induction ops generalizing s with
  | nil => exact h
  | cons op ops ih =>
    obtain ⟨hop, hops'⟩ := List.forall_mem_cons.mp hops
    exact ih (h.exec hop) hops'

/-- `CyFxSlFifoApplnStart` may call the error handler, but only before it sets
`glIsApplnActive`. -/
theorem sound_applnStart (hs : s.active = false) (speed : UsbSpeed) :
    (sdk.execAll s (applnStart speed)).Sound := by
  have hsplit : applnStart speed =
      (applnStart speed).take 8 ++ [.setActive true, .usb (.gpioSetValue 59 false)] := rfl
  rw [hsplit, Sdk.execAll, List.foldl_append]
  have hbefore : (((applnStart speed).take 8).foldl sdk.exec s).active = false := by
    refine active_execAll ?_ hs
    simp [applnStart, Op.KeepsInactive]
  have hafter : App.Sound (((applnStart speed).take 8).foldl sdk.exec s) := fun _ ↦ hbefore
  exact hafter.execAll (by simp [Op.Unchecked])

/-- After `CyFxSlFifoApplnStop` the application is not active. -/
theorem active_applnStop (h : s.Sound) : (sdk.execAll s applnStop).active = false := by
  have hfirst : (sdk.exec s (.setActive false)).active = false := by
    rw [Sdk.exec]
    split
    · next hs => exact h hs
    · rfl
  have hrest : ∀ op ∈ applnStop.tail, op.KeepsInactive := by
    simp [applnStop, applnStopBody, Op.KeepsInactive]
  have hcons : applnStop = .setActive false :: applnStop.tail := rfl
  rw [hcons, Sdk.execAll, List.foldl_cons]
  exact active_execAll hrest hfirst

theorem unchecked_applnStop : ∀ op ∈ applnStop, op.Unchecked := by
  simp [applnStop, applnStopBody, Op.Unchecked]

theorem unchecked_callback (r : Setup) (active : Bool) :
    ∀ op ∈ (r.callback active).1, op.Unchecked := by
  have hsuspend : ∀ op ∈ (r.answerSuspend active).1, op.Unchecked := by
    rw [Setup.answerSuspend]
    split
    · cases active <;> simp [Op.Unchecked]
    · exact fun op hop ↦ absurd hop List.not_mem_nil
  have hclear : ∀ op ∈ r.clearHalt, op.Unchecked := by
    rw [Setup.clearHalt]
    split <;> split <;> simp [clearProducer, clearConsumer, Op.Unchecked]
  rw [Setup.callback]
  split
  · split
    · exact List.forall_mem_append.mpr ⟨hsuspend, hclear⟩
    · exact hsuspend
  · exact fun op hop ↦ absurd hop List.not_mem_nil

/-- **One event.** -/
theorem sound_handle (h : s.Sound) (e : Event) : (sdk.handle s e).Sound := by
  rw [Sdk.handle]
  have hstop : (sdk.execAll s (if s.active then applnStop else [])).Sound := by
    split
    · exact h.execAll unchecked_applnStop
    · exact h
  cases e with
  | reset | disconnect => exact hstop
  | other => exact h
  | setup setupdat0 setupdat1 => exact h.execAll (unchecked_callback _ _)
  | setConf speed =>
    have hlpm : (sdk.exec s (.usb .lpmDisable)).Sound := h.exec trivial
    show (sdk.execAll (sdk.exec s (.usb .lpmDisable)) _).Sound
    rw [Sdk.execAll, List.foldl_append]
    refine sound_applnStart ?_ speed
    cases hactive : s.active with
    | true => exact active_applnStop hlpm
    | false => exact active_exec trivial hactive

/-- **In an active application** the error handler has not been called. -/
theorem sound_run (es : List Event) : (sdk.run es).Sound := by
  induction es using List.reverseRecOn with
  | nil => exact nofun
  | append_singleton es e ih =>
    rw [Sdk.run_concat]
    exact sound_handle ih e

end errors

/-! ## When it is cleared as it should -/

section clearing

variable {sdk : Sdk} {c c' : Chip} {ops middle rest : List Op} {steps : List Step} {p : Pipe}

theorem Sdk.Executes.op_mem (h : sdk.Executes c ops steps c') {x : Step} (hx : x ∈ steps) :
    x.op ∈ ops := by
  rw [← h.map_op]
  exact List.mem_map_of_mem hx

theorem Sdk.Executes.hung_eq (h : sdk.Executes c ops steps c') (hops : ∀ op ∈ ops, op.Unchecked) :
    c'.app.hung = c.app.hung := by
  induction h with
  | nil traffic => rw [traffic.app]
  | cons traffic rest ih =>
    obtain ⟨hop, hops'⟩ := List.forall_mem_cons.mp hops
    rw [ih hops', Sdk.step, hung_exec hop, traffic.app]

/-- **A pipe that is reset between setting and clearing the NAK of its endpoint.** -/
theorem Sdk.Executes.nak_between
    (h : sdk.Executes c ([.usb (.setEpNak p.ep true)] ++ (middle ++
      ([.usb (.setEpNak p.ep false)] ++ rest))) steps c')
    (hung : c.app.hung = false) (hkeeps : ∀ op ∈ middle ++ rest, op.KeepsNak p.ep)
    (hunchecked : ∀ op ∈ middle, op.Unchecked) (hrest : ∀ op ∈ rest, ¬ op.Resets p) :
    (∀ x ∈ steps, x.op.Resets p → (x.before.endpoints p.ep).nak = true) ∧
      (c'.endpoints p.ep).nak = false := by
  obtain ⟨hkeepsMiddle, hkeepsRest⟩ := List.forall_mem_append.mp hkeeps
  obtain ⟨c₁, steps₁, _, hset, htail, rfl⟩ := h.append_inv
  obtain ⟨c₂, steps₂, _, hmiddle, htail', rfl⟩ := htail.append_inv
  obtain ⟨c₃, steps₃, steps₄, hclear, hend, rfl⟩ := htail'.append_inv
  have hung₁ : c₁.app.hung = false :=
    (hset.hung_eq (List.forall_mem_singleton.mpr trivial)).trans hung
  have hung₂ : c₂.app.hung = false := (hmiddle.hung_eq hunchecked).trans hung₁
  obtain ⟨-, hnak⟩ := hmiddle.nak_eq hkeepsMiddle
  obtain ⟨hnak', -⟩ := hend.nak_eq hkeepsRest
  refine ⟨fun x hx hresets ↦ ?_, hnak'.trans (hclear.nak_of_setEpNak hung₂)⟩
  -- setting and clearing the NAK and what comes last do not reset anything
  have hsingle : ∀ nak, x.op ∉ [Op.usb (.setEpNak p.ep nak)] := by
    intro nak hmem
    rw [List.mem_singleton.mp hmem] at hresets
    exact hresets
  rcases List.mem_append.mp hx with hx | hx
  · exact absurd (hset.op_mem hx) (hsingle true)
  rcases List.mem_append.mp hx with hx | hx
  · rw [hnak x hx, hset.nak_of_setEpNak hung]
  rcases List.mem_append.mp hx with hx | hx
  · exact absurd (hclear.op_mem hx) (hsingle false)
  · exact absurd hresets (hrest _ (hend.op_mem hx))

/-- The operations of the request that clears the halt of the pipe. -/
def Pipe.clear : Pipe → List Op
  | .producer => clearProducer ++ [.usb (.stall epProducer false true), .usb .ackSetup]
  | .consumer => clearConsumer ++ [.usb (.stall epConsumer false true), .usb .ackSetup]

theorem callback_of_clearsHaltOf {r : Setup} (h : r.ClearsHaltOf p) :
    (r.callback true).1 = p.clear := by
  have hsuspend : ¬ r.FunctionSuspend := by
    intro hs
    have htarget : (0x02 : BitVec 8) = 0x01 := h.clearHalt.1.symm.trans hs.1
    exact absurd htarget (by decide)
  rw [Setup.callback, if_pos h.standard, if_pos ⟨h.clearHalt, rfl⟩, Setup.answerSuspend,
    if_neg hsuspend, Setup.clearHalt, h.wIndex]
  cases p with
  | producer => rfl
  | consumer => rfl

/-- **The halt of the producer endpoint** is cleared as it should, -/
theorem haltCleared_producer (hung : c.app.hung = false) :
    HaltCleared sdk c (Pipe.clear .producer) .producer := by
  have hspares : ∀ op ∈ Pipe.clear .producer, op.Spares .consumer := by
    simp [Pipe.clear, clearProducer, Op.Spares, Pipe.ep, Pipe.handle, epProducer, epConsumer]
  have hnak : ∀ steps c', sdk.Executes c (Pipe.clear .producer) steps c' →
      (∀ x ∈ steps, x.op.Resets .producer → (x.before.endpoints epProducer).nak = true) ∧
        (c'.endpoints epProducer).nak = false := by
    intro steps c' h
    have hsplit : sdk.Executes c ([.usb (.setEpNak epProducer true)] ++
        ((clearProducer.drop 1).take 5 ++ ([.usb (.setEpNak epProducer false)] ++
          [.usb (.stall epProducer false true), .usb .ackSetup]))) steps c' := h
    exact hsplit.nak_between hung (by simp [clearProducer, Op.KeepsNak])
      (by simp [clearProducer, Op.Unchecked]) (by simp [Op.Resets])
  refine ⟨fun steps c' h ↦ (hnak steps c' h).1, fun steps c' h ↦ (hnak steps c' h).2,
    fun steps c' h x hx ↦ ?_⟩
  rw [h.after_eq x hx]
  exact step_of_spares (hspares _ (h.op_mem hx))

/-- **and that of the consumer endpoint** is not, whatever the state. -/
theorem not_haltCleared_consumer : ¬ HaltCleared sdk c (Pipe.clear .consumer) .consumer := by
  intro hcleared
  have hkeeps : ∀ op ∈ Pipe.clear .consumer, op.KeepsNak epConsumer := by
    simp [Pipe.clear, clearConsumer, Op.KeepsNak, epProducer, epConsumer]
  obtain ⟨steps, c', h⟩ := sdk.exists_executes c (Pipe.clear .consumer)
  obtain ⟨hend, hsteps⟩ := h.nak_eq hkeeps
  -- the reset of the channel
  have hreset : Op.dma .channel .reset .pToU false ∈ steps.map Step.op := by
    rw [h.map_op]
    simp [Pipe.clear, clearConsumer]
  obtain ⟨x, hx, hop⟩ := List.mem_map.mp hreset
  have hresets : x.op.Resets .consumer := by
    rw [hop]
    rfl
  have htrue := (hsteps x hx).symm.trans (hcleared.stopped steps c' h x hx hresets)
  have hfalse := hend.symm.trans (hcleared.released steps c' h)
  exact Bool.false_ne_true (hfalse.symm.trans htrue)

/-- **When a halt is cleared as it should**: for the producer endpoint. -/
theorem haltCleared_iff (sdk : Sdk) (es : List Event) (endpoints : BitVec 8 → EpState)
    (setupdat0 setupdat1 : BitVec 32) (p : Pipe) (hactive : (sdk.run es).active = true)
    (hr : (Setup.decode setupdat0 setupdat1).ClearsHaltOf p) :
    HaltCleared sdk ⟨sdk.run es, endpoints⟩
      ((Event.setup setupdat0 setupdat1).callback (sdk.run es).active) p ↔ p = .producer := by
  have hung : (sdk.run es).hung = false := by
    cases h : (sdk.run es).hung with
    | false => rfl
    | true => exact absurd ((sound_run es h).symm.trans hactive) Bool.false_ne_true
  rw [hactive, Event.callback, callback_of_clearsHaltOf hr]
  cases p with
  | producer => exact iff_of_true (haltCleared_producer hung) rfl
  | consumer => exact iff_of_false not_haltCleared_consumer nofun

end clearing

/-! ### After the first configuration -/

/-- **A request for each endpoint**, `CLEAR_FEATURE(ENDPOINT_HALT)` at super speed. -/
theorem haltCleared_setConf :
    (HaltCleared strict ⟨strict.run [.setConf .super], fun _ ↦ ⟨false, []⟩⟩
      ((Event.setup 0x00000102 0x00000001).callback (strict.run [.setConf .super]).active)
        .producer ↔ Pipe.producer = .producer) ∧
    (HaltCleared strict ⟨strict.run [.setConf .super], fun _ ↦ ⟨false, []⟩⟩
      ((Event.setup 0x00000102 0x00000081).callback (strict.run [.setConf .super]).active)
        .consumer ↔ Pipe.consumer = .producer) :=
  ⟨haltCleared_iff strict _ _ _ _ _ rfl ⟨rfl, ⟨rfl, rfl, rfl⟩, rfl⟩,
    haltCleared_iff strict _ _ _ _ _ rfl ⟨rfl, ⟨rfl, rfl, rfl⟩, rfl⟩⟩

/-- **Clearing the halt of the consumer endpoint** after the first configuration. -/
theorem not_haltCleared_setConf :
    (strict.run [.setConf .super]).active = true ∧
      (Setup.decode 0x00000102 0x00000081).ClearsHaltOf .consumer ∧
      ¬ HaltCleared strict ⟨strict.run [.setConf .super], fun _ ↦ ⟨false, []⟩⟩
        ((Event.setup 0x00000102 0x00000081).callback (strict.run [.setConf .super]).active)
        .consumer :=
  ⟨rfl, ⟨rfl, ⟨rfl, rfl, rfl⟩, rfl⟩, not_haltCleared_consumer⟩

end Fx3
end Usb3FpgaCard
