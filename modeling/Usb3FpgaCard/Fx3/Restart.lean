import Usb3FpgaCard.Fx3.Halt

/-!
# A second configuration: `fx3/cyfxslfifosync.c`

What follows from the multichannel that is never destroyed, with an SDK that does not create a
channel that is live.  `CyFxSlFifoApplnStart` checks that the channel has been created, and
`CyFxAppErrorHandler` does not return, so the firmware serves one configuration and no more.

The application goes through four phases, whatever requests come in between (`run_in_phase`).  It is
active from the first SETCONF to the event that stops it, and it hangs at the second SETCONF
(`oneLife`).
-/

set_option autoImplicit false

namespace Usb3FpgaCard
namespace Fx3

open History

/-! ## Phases -/

/-- The phases of the application. -/
inductive Phase where
  /-- No configuration has been set. -/
  | fresh
  | active
  /-- It has been stopped, and the multichannel is left over. -/
  | stopped
  /-- `CyFxAppErrorHandler` has been called. -/
  | hung
  deriving DecidableEq

/-- What an event does to the phase. -/
def Phase.next : Phase → Event → Phase
  | .fresh, .setConf _ => .active
  | .active, .setConf _ => .hung
  | .active, .reset => .stopped
  | .active, .disconnect => .stopped
  | .stopped, .setConf _ => .hung
  | p, _ => p

/-- The phase after a sequence of events. -/
def phase (es : List Event) : Phase := es.foldl Phase.next .fresh

/-- The event is a SETCONF. -/
def Event.Configures (e : Event) : Prop := ∃ speed, e = .setConf speed

variable {es : List Event} {e : Event}

theorem phase_concat : phase (es ++ [e]) = (phase es).next e := by
  rw [phase, List.foldl_append]
  rfl

theorem phase_eq_fresh_iff : phase es = .fresh ↔ ¬ Configured es := by
  induction es using List.reverseRecOn with
  | nil => exact iff_of_true rfl fun ⟨_, h⟩ ↦ List.not_mem_nil h
  | append_singleton es e ih =>
    rw [phase_concat, configured_concat, not_or, ← ih]
    cases e <;> cases phase es <;> simp [Phase.next]

/-- It hangs when a configuration is set for the second time. -/
theorem phase_eq_hung_iff :
    phase es = .hung ↔ Once (fun pre e ↦ e.Configures ∧ Configured pre) es := by
  induction es using List.reverseRecOn with
  | nil => exact iff_of_false nofun not_once_nil
  | append_singleton es e ih =>
    have hconf : Configured es ↔ phase es ≠ .fresh := by
      rw [ne_eq, phase_eq_fresh_iff, not_not]
    rw [phase_concat, once_concat, ← ih, hconf, Event.Configures]
    cases e <;> cases phase es <;> simp [Phase.next]

/-- It is active from the first configuration until it is stopped. -/
theorem phase_eq_active_iff :
    phase es = .active ↔
      Since (fun _ e ↦ ¬ e.Stops) (fun pre e ↦ e.Configures ∧ ¬ Configured pre) es := by
  induction es using List.reverseRecOn with
  | nil => exact iff_of_false nofun not_since_nil
  | append_singleton es e ih =>
    rw [phase_concat, since_concat, ← ih, ← phase_eq_fresh_iff, Event.Configures]
    cases e <;> cases phase es <;> simp [Phase.next, Event.Stops]

/-! ## The firmware -/

/-- A multichannel that is live cannot be created. -/
def Sdk.Refuses (sdk : Sdk) : Prop :=
  ∀ cfg c, (sdk.dma .multiChannel (.create cfg) (some c)).1 = false

/-- How the phase shows in the state. -/
def App.In (s : App) : Phase → Prop
  | .fresh => s.At dead false
  | .active => s.At armed true
  | .stopped => s.At leftOver false
  | .hung => s.hung = true

variable {sdk : Sdk} {s : App}

theorem Sdk.exec_of_hung (h : s.hung = true) (op : Op) : sdk.exec s op = s := by
  rw [Sdk.exec, if_pos h]

/-- Nothing happens any more when the error handler has been called. -/
theorem Sdk.execAll_of_hung (h : s.hung = true) (ops : List Op) : sdk.execAll s ops = s := by
  induction ops with
  | nil => rfl
  | cons op ops ih =>
    rw [Sdk.execAll, List.foldl_cons, Sdk.exec_of_hung h]
    exact ih

theorem Sdk.execAll_append (s : App) (ops ops' : List Op) :
    sdk.execAll s (ops ++ ops') = sdk.execAll (sdk.execAll s ops) ops' := List.foldl_append

/-- While the application is not active, a setup request does nothing to the channels. -/
theorem does_callback_inactive (sdk : Sdk) (r : Setup) (c : Handle → Option DmaChannel) :
    sdk.Does c false (r.callback false).1 c false := by
  rw [Setup.callback]
  split
  · rw [if_neg fun h ↦ Bool.false_ne_true h.2]
    exact does_answerSuspend sdk r c false
  · exact .nil

/-- `CyFxSlFifoApplnStop` returns. -/
theorem at_applnStop (hs : s.At armed true) : (sdk.execAll s applnStop).At leftOver false := by
  obtain ⟨hbody, -⟩ := does_applnStopBody sdk s hs
  rw [applnStop, Sdk.execAll_append]
  show (sdk.exec (sdk.execAll s applnStopBody) .stopped).At leftOver false
  rw [Sdk.exec, if_neg (by simp [hbody.hung])]
  exact ⟨hbody.channels, hbody.active, hbody.hung, hbody.live⟩

/-- **`CyFxSlFifoApplnStart` does not return** if the multichannel is left over. -/
theorem hung_applnStart (h : sdk.Refuses) (hs : s.At leftOver false) (speed : UsbSpeed) :
    (sdk.execAll s (applnStart speed)).hung = true := by
  have hfirst : sdk.Does leftOver false
      [.usb (.setEpConfig epProducer (epCfg speed)), .usb (.setEpConfig epConsumer (epCfg speed)),
        .dma .channel (.create (dmaCfg speed)) .uToP true]
      (Function.update leftOver .uToP (some ⟨.channel, false⟩)) false :=
    .usb (.usb (.create rfl .nil))
  obtain ⟨hs', -⟩ := hfirst s hs
  have hrefused : (sdk.exec (sdk.execAll s
      [.usb (.setEpConfig epProducer (epCfg speed)), .usb (.setEpConfig epConsumer (epCfg speed)),
        .dma .channel (.create (dmaCfg speed)) .uToP true])
      (.dma .multiChannel (.create (dmaMultiCfg speed)) .pToU true)).hung = true := by
    rw [Sdk.exec, if_neg (by simp [hs'.hung])]
    dsimp only
    rw [hs'.channels]
    simp [leftOver, h (dmaMultiCfg speed)]
  have hsplit : applnStart speed =
      [.usb (.setEpConfig epProducer (epCfg speed)), .usb (.setEpConfig epConsumer (epCfg speed)),
        .dma .channel (.create (dmaCfg speed)) .uToP true] ++
      .dma .multiChannel (.create (dmaMultiCfg speed)) .pToU true :: (applnStart speed).drop 4 :=
    rfl
  rw [hsplit, Sdk.execAll_append]
  show (sdk.execAll (sdk.exec _ _) _).hung = true
  rwa [Sdk.execAll_of_hung hrefused]

/-- The events that need no more than a rule. -/
theorem App.At.handle {c c' : Handle → Option DmaChannel} {a a' : Bool} (hs : s.At c a)
    (hdoes : sdk.Does c a (e.callback a) c' a') : (sdk.handle s e).At c' a' := by
  rw [Sdk.handle, hs.active]
  exact (hdoes s hs).1

/-- **One event.** -/
theorem App.In.handle (h : sdk.Refuses) {p : Phase} (hs : s.In p) (e : Event) :
    (sdk.handle s e).In (p.next e) := by
  cases p with
  | fresh =>
    have hs : s.At dead false := hs
    cases e with
    | setConf speed => exact hs.handle (.usb (does_applnStart sdk speed))
    | reset | disconnect | other => exact hs.handle .nil
    | setup setupdat0 setupdat1 => exact hs.handle (does_callback_inactive sdk _ dead)
  | active =>
    have hs : s.At armed true := hs
    cases e with
    | setConf speed =>
      obtain ⟨hs', -⟩ := (Sdk.Does.usb .nil : sdk.Does _ true [.usb .lpmDisable] _ true) s hs
      have hstop : (sdk.execAll _ applnStop).At leftOver false := at_applnStop hs'
      have hstart := hung_applnStart h hstop speed
      rw [← Sdk.execAll_append] at hstart
      rw [Sdk.handle, hs.active]
      exact hstart
    | reset | disconnect =>
      rw [Sdk.handle, hs.active]
      exact at_applnStop hs
    | other => exact hs.handle .nil
    | setup setupdat0 setupdat1 => exact hs.handle (does_callback_armed sdk _)
  | stopped =>
    have hs : s.At leftOver false := hs
    cases e with
    | setConf speed =>
      obtain ⟨hs', -⟩ := (Sdk.Does.usb .nil : sdk.Does _ false [.usb .lpmDisable] _ false) s hs
      have hstart := hung_applnStart h hs' speed
      rw [Sdk.handle, hs.active]
      exact hstart
    | reset | disconnect | other => exact hs.handle .nil
    | setup setupdat0 setupdat1 => exact hs.handle (does_callback_inactive sdk _ leftOver)
  | hung =>
    have hs : s.hung = true := hs
    have hnext : Phase.hung.next e = .hung := by cases e <;> rfl
    rw [hnext, Sdk.handle, Sdk.execAll_of_hung hs]
    exact hs

/-- **The application is in its phase**, in any run. -/
theorem run_in_phase (h : sdk.Refuses) (es : List Event) : (sdk.run es).In (phase es) := by
  induction es using List.reverseRecOn with
  | nil => exact ⟨rfl, rfl, rfl, nofun⟩
  | append_singleton es e ih =>
    rw [Sdk.run_concat, phase_concat]
    exact ih.handle h e

/-- The application is started once. -/
structure OneLife (sdk : Sdk) (es : List Event) : Prop where
  /-- It is active from the first SETCONF until the next event that stops it, -/
  active : (sdk.run es).active = true ↔
    Since (fun _ e ↦ ¬ e.Stops) (fun pre e ↦ e.Configures ∧ ¬ Configured pre) es
  /-- and it hangs from the second SETCONF on. -/
  hung : (sdk.run es).hung = true ↔ Once (fun pre e ↦ e.Configures ∧ Configured pre) es

/-- **One configuration and no more.** -/
theorem oneLife (h : sdk.Refuses) (es : List Event) : OneLife sdk es := by
  have hin := run_in_phase h es
  have hsound : (sdk.run es).Sound := sound_run es
  constructor
  · rw [← phase_eq_active_iff]
    cases hp : phase es with
    | fresh | active | stopped =>
      rw [hp] at hin
      simp [hin.active]
    | hung =>
      rw [hp] at hin
      simp [hsound hin]
  · rw [← phase_eq_hung_iff]
    cases hp : phase es with
    | fresh | active | stopped =>
      rw [hp] at hin
      simp [hin.hung]
    | hung =>
      rw [hp] at hin
      exact iff_of_true hin rfl

/-- A bus reset, and the host configures the device again. -/
theorem oneLife_reset : OneLife strict [.setConf .super, .reset, .setConf .super] :=
  oneLife (fun _ _ ↦ rfl) _

end Fx3
end Usb3FpgaCard
