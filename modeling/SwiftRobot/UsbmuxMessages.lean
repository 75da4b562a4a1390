import SwiftRobot.HubEvents

/-!
# What a message of usbmuxd can do to its reader

Keys are looked up and values cast without a check, `Detached` and the callback of a
connection index the map of the devices, and a device that is attached again destroys its
old connection, with the thread that listens on it.
-/

namespace SwiftRobot.UsbmuxMessages
open ByteWords Reading PacketHeaders Plist Connection ClientDispatcher HubEvents
open DispatcherRuns hiding Event Step

def Arrives (h : USBHub) : Event → Prop
  | .broadcast _ => True
  | .plist deviceID _ => (h.devices.find? deviceID).isSome
  | _ => False

def attached? : Event → Option ℤ
  | .broadcast plist_message =>
    if plist_message.string? "MessageType" = some (text "Attached") then
      (USBHub.parsePropertiesPlistDict plist_message).map fun device =>
        USBHub.deviceKey device.device_id
    else none
  | _ => none

/-- A message of a type that its handler knows, with the keys of that type, for a device that
is there. -/
def WellFormed (h : USBHub) : Event → Prop
  | .broadcast plist_message => ∃ type, plist_message.string? "MessageType" = some type ∧
    ((type = text "Result" ∧ (plist_message.integer? "Number").isSome) ∨
      (type = text "Attached" ∧ (USBHub.parsePropertiesPlistDict plist_message).isSome) ∨
      (type = text "Detached" ∧ ∃ id, plist_message.integer? "DeviceID" = some id ∧
        (h.devices.find? id.toInt32.toInt).isSome))
  | .plist _ plist_message => plist_message.string? "MessageType" = some (text "Result") ∧
    (plist_message.integer? "Number").isSome
  | _ => False

/-- The handler comes to its end, destroys no connection whose thread was not joined, and
leaves the devices and their statuses alone when the message was malformed. -/
structure Handled {σ : Type} (lib : Library) (app : Application (σ × List Update)) (env : Env)
    (s : State (σ × List Update)) (h : USBHub) (e : Event) : Prop where
  finishes : (perform lib app env s e).isSome
  joined : ∀ i c, attached? e = some i → h.devices.find? i = some c → c.client.listening = false
  discards : ¬ WellFormed h e → ∀ r, perform lib app env s e = some r →
    r.1.usbHubPtr.map (·.devices) = some h.devices

def Meets (captured : ℤ) (h : USBHub) : Event → Prop
  | .broadcast plist_message =>
    match plist_message.string? "MessageType" with
    | none => False
    | some type =>
      if type = text "Result" then ∃ number, plist_message.integer? "Number" = some number
      else if type = text "Attached" then
        ∃ device, USBHub.parsePropertiesPlistDict plist_message = some device ∧
          ∀ c, h.devices.find? (USBHub.deviceKey device.device_id) = some c →
            c.client.listening = false
      else if type = text "Detached" then
        ∃ id, plist_message.integer? "DeviceID" = some id ∧
          (h.devices.find? id.toInt32.toInt).isSome
      else True
  | .plist deviceID plist_message =>
    match plist_message.string? "MessageType" with
    | none => False
    | some type =>
      if type = text "Result" then
        ∃ number, plist_message.integer? "Number" = some number ∧
          ∀ c, h.devices.find? deviceID = some c → number.toInt32 = usbMuxReplyCodeOK →
            c.connectionStatusCallback = true → h.deviceStatusCallback = true →
            (h.devices.find? captured).isSome
      else True
  | _ => True

section
variable {σ : Type} {lib : Library} {app : Application (σ × List Update)} {env : Env}
  {s : State (σ × List Update)} {h : USBHub} {plist_message : Dictionary} {captured : ℤ}

def Told (us : List USBHub.Upcall) : Prop :=
  ∀ u ∈ us, ∃ deviceID status, u = .deviceStatus deviceID status ∧ status ≠ .connected

theorem told_value (env : Env) (app : Application (σ × List Update)) {us : List USBHub.Upcall}
    (hus : Told us) (mem : Bytes)
    (r : ClientDispatcher × (σ × List Update)) :
    ∃ r', (us.foldlM (upcall env app) r mem).value = some r' ∧ r'.1 = r.1 := by
  induction us generalizing r with
  | nil => exact ⟨r, rfl, rfl⟩
  | cons u us ih =>
    obtain ⟨deviceID, status, rfl, hstatus⟩ := hus u List.mem_cons_self
    have hrest : Told us := fun u hu => hus u (List.mem_cons_of_mem _ hu)
    obtain ⟨r₁, hr₁, hsame⟩ : ∃ r₁, (upcall env app r (.deviceStatus deviceID status) mem).value =
        some r₁ ∧ r₁.1 = r.1 := by
      cases status with
      | connected => exact absurd rfl hstatus
      | attached | detached | disconnected => exact ⟨_, rfl, rfl⟩
    obtain ⟨r', hr', hsame'⟩ := ih hrest r₁
    refine ⟨r', ?_, hsame'.trans hsame⟩
    rw [List.foldlM_cons, bind_value, hr₁, Option.bind_some, hr']

theorem told_disconnect (h : USBHub) (captured : ℤ) (c : Connection) :
    Told (h.raise captured c.disconnect.2) := by
  intro u hu
  obtain ⟨deviceID, rfl⟩ := reports_disconnect h captured c u hu
  exact ⟨deviceID, _, rfl, by decide⟩

theorem told_createDevice (h : USBHub) (device : UsbDeviceInfo) :
    Told (h.createDevice lib device).2 := by
  intro u hu
  simp only [USBHub.createDevice] at hu
  split_ifs at hu
  · exact ⟨_, _, List.mem_singleton.mp hu, by decide⟩
  · exact absurd hu List.not_mem_nil

theorem told_removed (h : USBHub) (c : Connection) (deviceID : ℤ) :
    Told (h.raise captured c.disconnect.2 ++
      if h.deviceStatusCallback then [.deviceStatus deviceID .detached] else []) := by
  intro u hu
  rcases List.mem_append.mp hu with hu | hu
  · exact told_disconnect h captured c u hu
  · split_ifs at hu
    · exact ⟨_, _, List.mem_singleton.mp hu, by decide⟩
    · exact absurd hu List.not_mem_nil

theorem told_nil : Told [] := fun _ hu => absurd hu List.not_mem_nil

theorem handled_of_none {e : Event} (h₀ : perform lib app env s e = none) :
    ¬ Handled lib app env s h e := by
  intro hhandled
  have hfinishes := hhandled.finishes
  rw [h₀] at hfinishes
  contradiction

theorem handled_of_some {e : Event} {r : ClientDispatcher × (σ × List Update)} {h' : USBHub}
    (hr : perform lib app env s e = some r) (hhub : r.1.usbHubPtr = some h')
    (hsame : ¬ WellFormed h e → h' = h) :
    Handled lib app env s h e ↔
      ∀ i c, attached? e = some i → h.devices.find? i = some c → c.client.listening = false := by
  constructor
  · exact fun hhandled => hhandled.joined
  · refine fun hjoined => ⟨by rw [hr]; rfl, hjoined, fun hnot r' hr' => ?_⟩
    rw [← Option.some.inj (hr.symm.trans hr'), hhub, hsame hnot]
    rfl

theorem handled_of_end {e : Event} {r : ClientDispatcher × (σ × List Update)} {h' : USBHub}
    (hnone : attached? e = none) (hr : perform lib app env s e = some r)
    (hhub : r.1.usbHubPtr = some h') (hsame : ¬ WellFormed h e → h' = h) :
    Handled lib app env s h e := by
  refine (handled_of_some hr hhub hsame).mpr fun i c hi => ?_
  rw [hnone] at hi
  contradiction

theorem perform_broadcast (lib : Library) (app : Application (σ × List Update)) (env : Env)
    (hhub : s.dispatcher.usbHubPtr = some h) (plist_message : Dictionary) :
    perform lib app env s (.broadcast plist_message) =
      (h.broadcastReceived lib env.captured plist_message).bind fun r =>
        (r.2.foldlM (upcall env app) ({ s.dispatcher with usbHubPtr := some r.1 }, s.app)
          []).value := by
  simp only [perform, hubStep, hhub, bind_value, ofOption_value]

theorem not_handled_of_received (hhub : s.dispatcher.usbHubPtr = some h)
    (h₀ : h.broadcastReceived lib env.captured plist_message = none) :
    ¬ Handled lib app env s h (.broadcast plist_message) := by
  apply handled_of_none
  rw [perform_broadcast lib app env hhub, h₀, Option.bind_none]

theorem perform_received (app : Application (σ × List Update))
    (hhub : s.dispatcher.usbHubPtr = some h) {r : USBHub × List USBHub.Upcall}
    (hr : h.broadcastReceived lib env.captured plist_message = some r) (htold : Told r.2) :
    ∃ r', perform lib app env s (.broadcast plist_message) = some r' ∧
      r'.1.usbHubPtr = some r.1 := by
  obtain ⟨r', hr', hsame⟩ := told_value env app htold []
    ({ s.dispatcher with usbHubPtr := some r.1 }, s.app)
  refine ⟨r', ?_, by rw [hsame]⟩
  rw [perform_broadcast lib app env hhub, hr, Option.bind_some, hr']

theorem broadcastReceived_eq (lib : Library) (h : USBHub) {type : Bytes}
    (htype : plist_message.string? "MessageType" = some type) (captured : ℤ) :
    h.broadcastReceived lib captured plist_message =
      if type = text "Result" then (plist_message.integer? "Number").map fun _ => (h, [])
      else if type = text "Attached" then
        (USBHub.parsePropertiesPlistDict plist_message).map (h.createDevice lib)
      else if type = text "Detached" then (plist_message.integer? "DeviceID").bind fun id =>
        h.removeDevice captured id.toInt32.toInt
      else some (h, []) := by
  rw [USBHub.broadcastReceived, htype]
  simp only [Option.bind_eq_bind, Option.bind_some, Option.map_eq_bind]
  rfl

theorem attached?_of_ne {type : Bytes}
    (htype : plist_message.string? "MessageType" = some type) (hne : type ≠ text "Attached") :
    attached? (.broadcast plist_message) = none := by
  rw [attached?, htype, if_neg fun h => hne (Option.some.inj h)]

section
variable (hhub : s.dispatcher.usbHubPtr = some h)
include hhub

theorem result_handled_iff (htype : plist_message.string? "MessageType" = some (text "Result")) :
    Handled lib app env s h (.broadcast plist_message) ↔
      ∃ number, plist_message.integer? "Number" = some number := by
  have hreceived := broadcastReceived_eq lib h htype env.captured
  rw [if_pos rfl] at hreceived
  cases hnumber : plist_message.integer? "Number" with
  | none =>
    rw [hnumber, Option.map_none] at hreceived
    exact iff_of_false (not_handled_of_received hhub hreceived) nofun
  | some number =>
    rw [hnumber, Option.map_some] at hreceived
    obtain ⟨r, hr, hr'⟩ := perform_received app hhub hreceived told_nil
    have hquiet := attached?_of_ne htype (by decide)
    exact iff_of_true (handled_of_end hquiet hr hr' fun _ => rfl) ⟨number, rfl⟩

theorem attached_handled_iff
    (htype : plist_message.string? "MessageType" = some (text "Attached")) :
    Handled lib app env s h (.broadcast plist_message) ↔
      ∃ device, USBHub.parsePropertiesPlistDict plist_message = some device ∧
        ∀ c, h.devices.find? (USBHub.deviceKey device.device_id) = some c →
          c.client.listening = false := by
  have hreceived := broadcastReceived_eq lib h htype env.captured
  rw [if_neg (by decide), if_pos rfl] at hreceived
  cases hdevice : USBHub.parsePropertiesPlistDict plist_message with
  | none =>
    rw [hdevice, Option.map_none] at hreceived
    exact iff_of_false (not_handled_of_received hhub hreceived) nofun
  | some device =>
    rw [hdevice, Option.map_some] at hreceived
    have hwell : WellFormed h (.broadcast plist_message) :=
      ⟨_, htype, Or.inr (Or.inl ⟨rfl, by rw [hdevice]; rfl⟩)⟩
    have hkey : attached? (.broadcast plist_message) =
        some (USBHub.deviceKey device.device_id) := by
      rw [attached?, htype, if_pos rfl, hdevice, Option.map_some]
    obtain ⟨r, hr, hr'⟩ := perform_received app hhub hreceived (told_createDevice h device)
    rw [handled_of_some hr hr' fun hnot => absurd hwell hnot, hkey]
    constructor
    · exact fun hjoined => ⟨device, rfl, fun c hc => hjoined _ c rfl hc⟩
    · intro hmeets i c hi hc
      obtain ⟨device', hdevice', hjoined⟩ := hmeets
      rw [← Option.some.inj hdevice', Option.some.inj hi] at hjoined
      exact hjoined c hc

theorem detached_handled_iff
    (htype : plist_message.string? "MessageType" = some (text "Detached")) :
    Handled lib app env s h (.broadcast plist_message) ↔
      ∃ id, plist_message.integer? "DeviceID" = some id ∧
        (h.devices.find? id.toInt32.toInt).isSome := by
  have hreceived := broadcastReceived_eq lib h htype env.captured
  rw [if_neg (by decide), if_neg (by decide), if_pos rfl] at hreceived
  cases hid : plist_message.integer? "DeviceID" with
  | none =>
    rw [hid, Option.bind_none] at hreceived
    exact iff_of_false (not_handled_of_received hhub hreceived) nofun
  | some id =>
    rw [hid, Option.bind_some, USBHub.removeDevice] at hreceived
    cases hc : h.devices.find? id.toInt32.toInt with
    | none =>
      -- the map gets a null pointer for the id, which is dereferenced
      rw [hc, Option.map_none] at hreceived
      refine iff_of_false (not_handled_of_received hhub hreceived) ?_
      intro hmeets
      obtain ⟨id', hid', hsome⟩ := hmeets
      rw [← Option.some.inj hid', hc] at hsome
      exact Bool.noConfusion hsome
    | some c =>
      rw [hc, Option.map_some] at hreceived
      have hwell : WellFormed h (.broadcast plist_message) :=
        ⟨_, htype, Or.inr (Or.inr ⟨rfl, id, hid, by rw [hc]; rfl⟩)⟩
      obtain ⟨r, hr, hr'⟩ := perform_received app hhub hreceived (told_removed h c _)
      have hquiet := attached?_of_ne htype (by decide)
      exact iff_of_true (handled_of_end hquiet hr hr' fun hnot => absurd hwell hnot)
        ⟨id, rfl, by rw [hc]; rfl⟩

theorem broadcast_handled_iff :
    Handled lib app env s h (.broadcast plist_message) ↔
      Meets env.captured h (.broadcast plist_message) := by
  cases htype : plist_message.string? "MessageType" with
  | none =>
    simp only [Meets, htype, iff_false]
    apply not_handled_of_received hhub
    rw [USBHub.broadcastReceived, htype]
    rfl
  | some type =>
    simp only [Meets, htype]
    split_ifs with hresult hattached hdetached
    · exact result_handled_iff hhub (hresult ▸ htype)
    · exact attached_handled_iff hhub (hattached ▸ htype)
    · exact detached_handled_iff hhub (hdetached ▸ htype)
    · have hreceived := broadcastReceived_eq lib h htype env.captured
      rw [if_neg hresult, if_neg hattached, if_neg hdetached] at hreceived
      obtain ⟨r, hr, hr'⟩ := perform_received app hhub hreceived told_nil
      have hquiet := attached?_of_ne htype hattached
      exact iff_of_true (handled_of_end hquiet hr hr' fun _ => rfl) trivial

end

theorem perform_plist (lib : Library) (app : Application (σ × List Update)) (env : Env)
    (hhub : s.dispatcher.usbHubPtr = some h) {deviceID : ℤ} {c : Connection}
    (hc : h.devices.find? deviceID = some c) (plist_message : Dictionary) :
    perform lib app env s (.plist deviceID plist_message) =
      (c.plistReceived plist_message).bind fun r =>
        ((h.raise env.captured r.2).foldlM (upcall env app)
          ({ s.dispatcher with usbHubPtr := some (h.setDevice deviceID r.1) }, s.app) []).value := by
  simp only [perform, hubStep, hhub, bind_value, ofOption_value, HubEvents.plistReceived,
    Option.bind_eq_bind, hc, Option.bind_some, Option.bind_assoc]
  rfl

theorem plistReceived_eq {type : Bytes} (htype : plist_message.string? "MessageType" = some type)
    (c : Connection) : c.plistReceived plist_message =
      if type = text "Result" then
        (plist_message.integer? "Number").map fun number => c.resultReceived number.toInt32
      else some (c, .silent) := by
  rw [Connection.plistReceived, htype]
  simp only [Option.bind_eq_bind, Option.bind_some, Option.map_eq_bind]
  rfl

theorem setDevice_self {deviceID : ℤ} {c : Connection} (hc : h.devices.find? deviceID = some c) :
    h.setDevice deviceID c = h := by
  rw [USBHub.setDevice, h.devices.insert_of_find? hc]

theorem find?_setDevice {deviceID : ℤ} {c : Connection} (hc : h.devices.find? deviceID = some c)
    (c' : Connection) (i : ℤ) :
    ((h.setDevice deviceID c').devices.find? i).isSome = (h.devices.find? i).isSome := by
  simp only [USBHub.setDevice, OrderedMap.find?_insert]
  split_ifs with hi
  · rw [hi, hc]
    rfl
  · rfl

theorem connected_value (env : Env) (app : Application (σ × List Update)) (captured : ℤ)
    {d : ClientDispatcher} (hhub : d.usbHubPtr = some h) (a : σ × List Update) (mem : Bytes) :
    match h.devices.find? captured with
    | none => (upcall env app (d, a) (.deviceStatus captured .connected) mem).value = none
    | some _ => ∃ r h', (upcall env app (d, a) (.deviceStatus captured .connected) mem).value =
        some r ∧ r.1.usbHubPtr = some h' := by
  simp only [upcall, ofOption_value, callbackUSBDeviceStatusChanged, sendConnectForUnkownUSBDevice,
    onHub, hhub, USBHub.sendPacketToDevice, USBHub.onDevice, USBHub.hand]
  cases h.devices.find? captured with
  | none => rfl
  | some c => exact ⟨_, _, rfl, rfl⟩

/-- A Result that is told to the application: then the Connect follows it. -/
def Tells (h : USBHub) (c : Connection) (result_code : Int32) : Prop :=
  result_code = usbMuxReplyCodeOK ∧ c.connectionStatusCallback = true ∧
    h.deviceStatusCallback = true

theorem raise_of_tells {c : Connection} {result_code : Int32} (htells : Tells h c result_code)
    (captured : ℤ) :
    h.raise captured (c.resultReceived result_code).2 = [.deviceStatus captured .connected] := by
  obtain ⟨hok, hcallback, hstatus⟩ := htells
  simp only [resultReceived, if_pos hok, connectedRoutine, if_pos hcallback, USBHub.raise,
    if_pos hstatus, if_true]

theorem raise_of_not_tells {c : Connection} {result_code : Int32}
    (htells : ¬ Tells h c result_code) (captured : ℤ) :
    h.raise captured (c.resultReceived result_code).2 = [] := by
  by_cases hok : result_code = usbMuxReplyCodeOK
  · by_cases hcallback : c.connectionStatusCallback = true
    · have hstatus : ¬ h.deviceStatusCallback = true := fun hstatus =>
        htells ⟨hok, hcallback, hstatus⟩
      simp only [resultReceived, if_pos hok, connectedRoutine, if_pos hcallback, USBHub.raise,
        if_neg hstatus]
    · simp only [resultReceived, if_pos hok, connectedRoutine, if_neg hcallback, USBHub.raise]
  · rw [resultReceived, if_neg hok]
    split_ifs <;> rfl

section
variable (hhub : s.dispatcher.usbHubPtr = some h) {deviceID : ℤ} {c : Connection}
  (hc : h.devices.find? deviceID = some c)
include hhub hc

theorem result_perform_iff {number : Int64}
    (htype : plist_message.string? "MessageType" = some (text "Result"))
    (hnumber : plist_message.integer? "Number" = some number) :
    Handled lib app env s h (.plist deviceID plist_message) ↔
      (Tells h c number.toInt32 → (h.devices.find? env.captured).isSome) := by
  have hperform := perform_plist lib app env hhub hc plist_message
  rw [plistReceived_eq htype, if_pos rfl, hnumber, Option.map_some, Option.bind_some] at hperform
  have hwell : WellFormed h (.plist deviceID plist_message) := ⟨htype, by rw [hnumber]; rfl⟩
  by_cases htells : Tells h c number.toInt32
  · obtain ⟨c', hc'⟩ : ∃ c', (c.resultReceived number.toInt32).1 = c' := ⟨_, rfl⟩
    rw [raise_of_tells htells, hc', List.foldlM_cons, bind_value] at hperform
    have hvalue := connected_value env app env.captured
      (d := { s.dispatcher with usbHubPtr := some (h.setDevice deviceID c') }) rfl s.app []
    have hfind := find?_setDevice hc c' env.captured
    cases hcaptured : (h.setDevice deviceID c').devices.find? env.captured with
    | none =>
      rw [hcaptured] at hvalue hfind
      rw [hvalue, Option.bind_none] at hperform
      refine iff_of_false (handled_of_none hperform) fun hmeets => ?_
      have hsome := hmeets htells
      rw [← hfind] at hsome
      contradiction
    | some c'' =>
      rw [hcaptured] at hvalue hfind
      obtain ⟨r, h', hr, hr'⟩ := hvalue
      rw [hr, Option.bind_some] at hperform
      have hhandled := handled_of_end rfl hperform hr' fun hnot => absurd hwell hnot
      exact iff_of_true hhandled fun _ => hfind.symm
  · rw [raise_of_not_tells htells] at hperform
    have hhandled := handled_of_end rfl hperform rfl fun hnot => absurd hwell hnot
    exact iff_of_true hhandled fun htells' => absurd htells' htells

theorem plist_handled_iff :
    Handled lib app env s h (.plist deviceID plist_message) ↔
      Meets env.captured h (.plist deviceID plist_message) := by
  have hperform := perform_plist lib app env hhub hc plist_message
  cases htype : plist_message.string? "MessageType" with
  | none =>
    simp only [Meets, htype, iff_false]
    apply handled_of_none
    rw [hperform, Connection.plistReceived, htype]
    rfl
  | some type =>
    simp only [Meets, htype]
    split_ifs with hresult
    · cases hnumber : plist_message.integer? "Number" with
      | none =>
        rw [plistReceived_eq htype, if_pos hresult, hnumber, Option.map_none] at hperform
        exact iff_of_false (handled_of_none hperform) nofun
      | some number =>
        rw [result_perform_iff hhub hc (hresult ▸ htype) hnumber]
        constructor
        · intro hmeets
          refine ⟨number, rfl, fun c' hc' hok hcallback hstatus => hmeets ⟨hok, ?_, hstatus⟩⟩
          rw [Option.some.inj (hc.symm.trans hc')]
          exact hcallback
        · intro hmeets htells
          obtain ⟨number', hnumber', hmeets⟩ := hmeets
          rw [← Option.some.inj hnumber'] at hmeets
          exact hmeets c hc htells.1 htells.2.1 htells.2.2
    · rw [plistReceived_eq htype, if_neg hresult, Option.bind_some, setDevice_self hc] at hperform
      exact iff_of_true (handled_of_end rfl hperform rfl fun _ => rfl) trivial

end

theorem handled_iff {e : Event} (hhub : s.dispatcher.usbHubPtr = some h) (he : Arrives h e) :
    Handled lib app env s h e ↔ Meets env.captured h e := by
  cases e with
  | broadcast plist_message => exact broadcast_handled_iff hhub
  | plist deviceID plist_message =>
    obtain ⟨c, hc⟩ := Option.isSome_iff_exists.mp he
    exact plist_handled_iff hhub hc
  | _ => exact absurd he id

def Throughout (lib : Library) (app : Application (σ × List Update)) (s : State (σ × List Update))
    (es : List (Env × Event)) (P : Env → State (σ × List Update) → USBHub → Event → Prop) : Prop :=
  ∀ fs env e t h, fs ++ [(env, e)] <+: es → Run (HubEvents.Step lib app) s fs t →
    t.dispatcher.usbHubPtr = some h → Arrives h e → P env t h e

/-- In every run, whatever else happens in it, all messages are handled exactly when each
brings along what its type needs. -/
theorem messages_handled_iff (lib : Library) (app : Application (σ × List Update))
    (s : State (σ × List Update)) (es : List (Env × Event)) :
    Throughout lib app s es (Handled lib app) ↔
      Throughout lib app s es fun env _ h e => Meets env.captured h e := by
  constructor
  · intro hall fs env e t h hfs run hhub he
    exact (handled_iff hhub he).mp (hall fs env e t h hfs run hhub he)
  · intro hall fs env e t h hfs run hhub he
    exact (handled_iff hhub he).mpr (hall fs env e t h hfs run hhub he)

end

/-- `Detached` for a device that was never attached: the map gets a null pointer for it,
which is dereferenced. -/
theorem detached_unknown :
    let message : Dictionary :=
      [(text "MessageType", .string (text "Detached")), (text "DeviceID", .int64 3)]
    ¬ Throughout silentLibrary (recording silentApp) (State.initial [] 0 .usb ((), []))
      [(at' 0, .broadcast message)] (Handled silentLibrary (recording silentApp)) := by
  intro message hall
  have hhandled := hall [] (at' 0) (.broadcast message) _ _ (List.prefix_refl _) .nil rfl trivial
  exact handled_of_none rfl hhandled

end SwiftRobot.UsbmuxMessages
