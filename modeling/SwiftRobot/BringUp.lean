import SwiftRobot.DispatcherRuns

/-!
# How a device comes up

`createDevice` writes the Connect request, with the listening thread started, before it
sets the status to CONNECTING and before it installs the callbacks. From there the two
threads take their statements in any order. The status callback reads the device id
from the stack frame of `createDevice`, and `captured` is what it reads when that is gone.
-/

namespace SwiftRobot.BringUp
open ByteWords PacketHeaders Plist Connection USBHub
open DispatcherRuns (silentLibrary)

/-- The next statement of the thread in `createDevice`. -/
inductive Creator
  | tag
  | status
  | packetCallback
  | statusCallback
  | attached
  | leave
  | done
  deriving DecidableEq

def Creator.steps : Creator → ℕ
  | .tag => 0
  | .status => 1
  | .packetCallback => 2
  | .statusCallback => 3
  | .attached => 4
  | .leave => 5
  | .done => 6

/-- The next statement of the listening thread, from the Result OK to the Connect packet
of the dispatcher. It is lost where it follows a null pointer. -/
inductive Listener
  | answer
  | connectedRoutine
  | callback
  | gate (deviceID : ℤ)
  | write (deviceID : ℤ)
  | done
  | lost
  deriving DecidableEq

inductive Thread
  | creator
  | listener
  deriving DecidableEq

structure State where
  hub : USBHub
  creator : Creator
  listener : Listener
  called : List USBHub.Upcall

section
variable (lib : Library) (device : UsbDeviceInfo) (captured : ℤ) (packet : Bytes)

def requested (port : UInt16) : Connection :=
  let c := ofDevice device port
  { (c.startConnection lib false).1 with tag := c.tag, status := .wantingConnection }

def State.initial (h : USBHub) : State :=
  let h := { h with receivedPacketCallback := true, deviceStatusCallback := true }
  ⟨h.setDevice (deviceKey device.device_id) (requested lib device h.port), .tag, .answer, []⟩

def State.update (f : Connection → Connection) (s : State) : Option State :=
  (s.hub.onDevice (deviceKey device.device_id) f).map fun hub => { s with hub := hub }

def State.create (s : State) : Option State :=
  match s.creator with
  | .tag => { s with creator := .status }.update device fun c => { c with tag := c.tag + 1 }
  | .status =>
    { s with creator := .packetCallback }.update device fun c => { c with status := .connecting }
  | .packetCallback => { s with creator := .statusCallback }.update device fun c =>
      { c with packetReceivedCallback := s.hub.receivedPacketCallback }
  | .statusCallback => { s with creator := .attached }.update device fun c =>
      { c with connectionStatusCallback := true }
  | .attached => some { s with
      creator := .leave
      called := s.called ++ if s.hub.deviceStatusCallback then
        [.deviceStatus (deviceKey device.device_id) .attached] else [] }
  | .leave => some { s with creator := .done }
  | .done => none

def State.deviceID (s : State) : ℤ :=
  if s.creator = .done then captured else deviceKey device.device_id

def State.listen (s : State) : Option State :=
  match s.listener with
  | .answer => { s with listener := .connectedRoutine }.update device fun c =>
      { c with status := .connected }
  | .connectedRoutine => (s.hub.devices.find? (deviceKey device.device_id)).map fun c =>
      { s with listener := if c.connectionStatusCallback then .callback else .done }
  | .callback =>
    if s.hub.deviceStatusCallback then
      some { s with
        listener := .gate (s.deviceID device captured)
        called := s.called ++ [.deviceStatus (s.deviceID device captured) .connected] }
    else some { s with listener := .done }
  | .gate deviceID =>
    match s.hub.devices.find? deviceID with
    | none => some { s with listener := .lost }
    | some c => some { s with
        hub := s.hub.hand (.device deviceID) ⟨.connect, [packet]⟩
        listener := if c.status = .connected then .write deviceID else .done }
  | .write deviceID => (s.hub.onDevice deviceID fun c =>
      { c with
        client := c.client.call (.send swiftRobotPacketProtocol PacketType.connect.code c.tag packet)
        tag := c.tag + 1 }).map fun hub => { s with hub := hub, listener := .done }
  | .done => none
  | .lost => none

def State.advance (s : State) : Thread → Option State
  | .creator => s.create device
  | .listener => s.listen device captured packet

def Step (s : State) (e : Thread) (t : State) : Prop := s.advance device captured packet e = some t

def State.Finished (s : State) : Prop :=
  s.creator = .done ∧ (s.listener = .done ∨ s.listener = .lost)

def connects (c : Connection) : ℕ :=
  c.client.calls.countP fun k => k.type = PacketType.connect.code

def State.reports (s : State) : ℕ :=
  s.called.count (.deviceStatus (deviceKey device.device_id) .connected)

structure BroughtUp (s : State) : Prop where
  connection : ∃ c, s.hub.devices.find? (deviceKey device.device_id) = some c ∧
    c.status = .connected ∧ connects c = 1
  reported : s.reports device = 1

def Meets (k : ℕ) (P : ℕ → Prop) (es : List Thread) : Prop :=
  ∀ fs, fs ++ [.listener] <+: es → fs.count .listener = k → P (fs.count .creator)

/-- The status is written behind CONNECTING, the callback looked for when it is installed,
and the id read while `createDevice` runs, unless its frame still holds it. -/
structure Timely (es : List Thread) : Prop where
  status : Meets 0 (2 ≤ ·) es
  callback : Meets 1 (4 ≤ ·) es
  deviceID : Meets 2 (fun n => n < 6 ∨ captured = deviceKey device.device_id) es

end

section
variable {lib : Library} {device : UsbDeviceInfo} {captured : ℤ} {packet : Bytes}
  {es : List Thread} {s t : State} {k : ℕ} {P : ℕ → Prop}

theorem meets_snoc_creator : Meets k P (es ++ [.creator]) ↔ Meets k P es := by
  constructor
  · intro h fs hfs
    exact h fs (hfs.trans (List.prefix_append _ _))
  · intro h fs hfs
    rcases List.prefix_concat_iff.mp hfs with heq | hfs
    · have hlast := (List.append_inj' heq rfl).2
      simp at hlast
    · exact h fs hfs

theorem meets_snoc_listener : Meets k P (es ++ [.listener]) ↔
    Meets k P es ∧ (es.count .listener = k → P (es.count .creator)) := by
  constructor
  · intro h
    exact ⟨fun fs hfs => h fs (hfs.trans (List.prefix_append _ _)), h es List.prefix_rfl⟩
  · rintro ⟨h, hlast⟩ fs hfs
    rcases List.prefix_concat_iff.mp hfs with heq | hfs
    · obtain rfl := (List.append_inj' heq rfl).1
      exact hlast
    · exact h fs hfs

theorem meets_of_count (h : es.count .listener ≤ k) : Meets k P es := by
  intro fs hfs hcount
  have hle := hfs.sublist.count_le .listener
  rw [List.count_append, hcount, List.count_singleton_self] at hle
  omega

/-- What the listener has done, where `A`, `B` and `C` tell whether its first three statements
came in time, `n` is how many it has taken, and `reports` and `sent` what came out. -/
def Listener.Known (device : UsbDeviceInfo) (A B C : Prop) (n reports sent : ℕ) : Listener → Prop
  | .answer => n = 0 ∧ reports = 0 ∧ sent = 0
  | .connectedRoutine => n = 1 ∧ reports = 0 ∧ sent = 0
  | .callback => n = 2 ∧ B ∧ reports = 0 ∧ sent = 0
  | .gate deviceID => 3 ≤ n ∧ B ∧ (reports = 1 ↔ C) ∧ (C ↔ deviceID = deviceKey device.device_id) ∧
    sent = 0
  | .write deviceID => 3 ≤ n ∧ B ∧ (reports = 1 ↔ C) ∧
    (C ↔ deviceID = deviceKey device.device_id) ∧ sent = 0
  | .done => 2 ≤ n ∧ (reports = 1 ↔ B ∧ C) ∧ (A → B → C → sent = 1)
  | .lost => 3 ≤ n ∧ reports ≠ 1 ∧ ¬ C

structure Own (A : Prop) (steps : ℕ) (answered : Prop) (c : Connection) : Prop where
  callback : c.connectionStatusCallback = true ↔ 4 ≤ steps
  status : answered → (c.status = .connected ↔ A ∨ steps < 2)
  late : answered → A → 2 ≤ steps

structure Known (device : UsbDeviceInfo) (captured : ℤ) (es : List Thread) (s : State) : Prop where
  creator : es.count .creator = s.creator.steps
  hub : s.hub.deviceStatusCallback = true
  own : ∃ c, s.hub.devices.find? (deviceKey device.device_id) = some c ∧
    Own (Meets 0 (2 ≤ ·) es) s.creator.steps (s.listener ≠ .answer) c ∧
    s.listener.Known device (Meets 0 (2 ≤ ·) es) (Meets 1 (4 ≤ ·) es)
      (Meets 2 (fun n => n < 6 ∨ captured = deviceKey device.device_id) es)
      (es.count .listener) (s.reports device) (connects c)

theorem update_eq_some {f : Connection → Connection} (h : s.update device f = some t) :
    ∃ c, s.hub.devices.find? (deviceKey device.device_id) = some c ∧
      t = { s with hub := s.hub.setDevice (deviceKey device.device_id) (f c) } := by
  obtain ⟨hub, hhub, rfl⟩ := Option.map_eq_some_iff.mp h
  obtain ⟨c, hc, rfl⟩ := Option.map_eq_some_iff.mp hhub
  exact ⟨c, hc, rfl⟩

structure Created (device : UsbDeviceInfo) (s t : State) (c c' : Connection) : Prop where
  creator : t.creator.steps = s.creator.steps + 1
  listener : t.listener = s.listener
  hub : t.hub.deviceStatusCallback = s.hub.deviceStatusCallback
  reports : t.reports device = s.reports device
  own : t.hub.devices.find? (deviceKey device.device_id) = some c'
  calls : c'.client = c.client
  status : c'.status = if s.creator.steps = 1 then .connecting else c.status
  callback : c'.connectionStatusCallback =
    if s.creator.steps = 3 then true else c.connectionStatusCallback

theorem created {c : Connection} (hc : s.hub.devices.find? (deviceKey device.device_id) = some c)
    (h : s.create device = some t) : ∃ c', Created device s t c c' := by
  unfold State.create at h
  have hset : ∀ {f : Connection → Connection} {next : Creator},
      { s with creator := next }.update device f = some t →
        t = { s with
          creator := next, hub := s.hub.setDevice (deviceKey device.device_id) (f c) } := by
    intro f next hupdate
    obtain ⟨c', hc', rfl⟩ := update_eq_some hupdate
    obtain rfl := Option.some.inj (hc.symm.trans hc')
    rfl
  cases hcreator : s.creator with
  | tag | status | packetCallback | statusCallback =>
    rw [hcreator] at h
    rw [hset h]
    refine ⟨_, ?_, rfl, rfl, rfl, OrderedMap.find?_insert_self _ _ _, rfl, ?_, ?_⟩
    all_goals
      rw [hcreator]
      rfl
  | attached =>
    rw [hcreator] at h
    rw [← Option.some.inj h]
    refine ⟨c, ?_, rfl, rfl, ?_, hc, rfl, ?_, ?_⟩
    · rw [hcreator]
      rfl
    · rw [State.reports, List.count_append]
      split_ifs
      · rw [List.count_singleton, if_neg (by simp)]
        rfl
      · rfl
    · rw [hcreator]
      rfl
    · rw [hcreator]
      rfl
  | leave =>
    rw [hcreator] at h
    rw [← Option.some.inj h]
    refine ⟨c, ?_, rfl, rfl, rfl, hc, rfl, ?_, ?_⟩
    all_goals
      rw [hcreator]
      rfl
  | done =>
    rw [hcreator] at h
    contradiction

theorem Known.create (h : Known device captured es s) (hs : s.create device = some t) :
    Known device captured (es ++ [.creator]) t := by
  obtain ⟨c, hc, hown, hlistener⟩ := h.own
  obtain ⟨c', hc'⟩ := created hc hs
  have hcount : (es ++ [Thread.creator]).count .listener = es.count .listener := by
    rw [List.count_append, List.count_singleton, if_neg (by decide)]
    rfl
  refine ⟨?_, hc'.hub.trans h.hub, c', hc'.own, ?_, ?_⟩
  · rw [List.count_append, h.creator, List.count_singleton_self, hc'.creator]
  · rw [meets_snoc_creator, hc'.creator, hc'.listener]
    refine ⟨?_, fun hanswered => ?_, fun hanswered hA => (hown.late hanswered hA).trans (by omega)⟩
    · rw [hc'.callback]
      have hcallback := hown.callback
      split_ifs with hsteps
      · simp [hsteps]
      · rw [hcallback]
        omega
    · have hstatus := hown.status hanswered
      have hlate := hown.late hanswered
      rw [hc'.status]
      split_ifs with hsteps
      · -- CONNECTING is written over what the answer left
        have hA : ¬ Meets 0 (2 ≤ ·) es := fun hA => by
          have := hlate hA
          omega
        simp [hsteps, hA]
      · rw [hstatus]
        exact or_congr_right (by omega)
  · rw [hcount, hc'.listener, hc'.reports, connects, hc'.calls]
    simp only [meets_snoc_creator]
    exact hlistener

theorem meets_later (h : es.count .listener ≠ k) :
    Meets k P (es ++ [.listener]) ↔ Meets k P es := by
  rw [meets_snoc_listener]
  exact and_iff_left fun hcount => absurd hcount h

theorem meets_now (h : es.count .listener = k) :
    Meets k P (es ++ [.listener]) ↔ P (es.count .creator) := by
  rw [meets_snoc_listener]
  exact ⟨fun hP => hP.2 h, fun hP => ⟨meets_of_count h.le, fun _ => hP⟩⟩

theorem Own.later {A A' p q : Prop} {steps : ℕ} {c c' : Connection} (h : Own A steps p c)
    (hp : p) (hA : A' ↔ A) (hcallback : c'.connectionStatusCallback = c.connectionStatusCallback)
    (hstatus : c'.status = c.status) : Own A' steps q c' := by
  refine ⟨?_, fun _ => ?_, fun _ hA' => h.late hp (hA.mp hA')⟩
  · rw [hcallback]
    exact h.callback
  · rw [hstatus, hA]
    exact h.status hp

theorem connects_call {c c' : Connection} {call : Call} (hcall : c'.client = c.client.call call)
    (htype : call.type = PacketType.connect.code) : connects c' = connects c + 1 := by
  rw [connects, connects, hcall, Client.call, List.countP_append, List.countP_singleton,
    if_pos (decide_eq_true htype)]

theorem count_creator_snoc : (es ++ [Thread.listener]).count .creator = es.count .creator := by
  rw [List.count_append, List.count_singleton, if_neg (by decide), Nat.add_zero]

theorem count_listener_snoc : (es ++ [Thread.listener]).count .listener = es.count .listener + 1 := by
  rw [List.count_append, List.count_singleton_self]

theorem Known.settled {c c' : Connection} {p : Prop} (h : Known device captured es s)
    (hn : 3 ≤ es.count .listener) (hcreator : t.creator = s.creator)
    (hhub : t.hub.deviceStatusCallback = true)
    (hc' : t.hub.devices.find? (deviceKey device.device_id) = some c')
    (hown : Own (Meets 0 (2 ≤ ·) es) s.creator.steps p c) (hp : p)
    (hcallback : c'.connectionStatusCallback = c.connectionStatusCallback)
    (hstatus : c'.status = c.status)
    (hlistener : t.listener.Known device (Meets 0 (2 ≤ ·) es) (Meets 1 (4 ≤ ·) es)
      (Meets 2 (fun n => n < 6 ∨ captured = deviceKey device.device_id) es)
      (es.count .listener + 1) (t.reports device) (connects c')) :
    Known device captured (es ++ [.listener]) t := by
  refine ⟨?_, hhub, c', hc', ?_, ?_⟩
  · rw [count_creator_snoc, h.creator, hcreator]
  · rw [hcreator]
    exact hown.later hp (meets_later (by omega)) hcallback hstatus
  · rw [meets_later (by omega), meets_later (by omega), meets_later (by omega),
      count_listener_snoc]
    exact hlistener

theorem Known.listen (h : Known device captured es s)
    (hs : s.listen device captured packet = some t) :
    Known device captured (es ++ [.listener]) t := by
  obtain ⟨c, hc, hown, hlistener⟩ := h.own
  have hcreator : (es ++ [Thread.listener]).count .creator = s.creator.steps := by
    rw [count_creator_snoc, h.creator]
  unfold State.listen at hs
  cases hphase : s.listener with
  | answer =>
    rw [hphase] at hs hlistener hown
    obtain ⟨hn, hreports, hsent⟩ := hlistener
    obtain ⟨c', hc', rfl⟩ := update_eq_some hs
    obtain rfl := Option.some.inj (hc.symm.trans hc')
    have hA : Meets 0 (2 ≤ ·) (es ++ [.listener]) ↔ 2 ≤ s.creator.steps := by
      rw [meets_now hn, h.creator]
    refine ⟨hcreator, h.hub, _, OrderedMap.find?_insert_self _ _ _,
      ⟨hown.callback, fun _ => ?_, fun _ => hA.mp⟩, by rw [count_listener_snoc, hn], hreports, hsent⟩
    rw [hA]
    exact iff_of_true rfl (le_or_gt 2 s.creator.steps)
  | connectedRoutine =>
    rw [hphase] at hs hlistener hown
    obtain ⟨hn, hreports, hsent⟩ := hlistener
    have hB : Meets 1 (4 ≤ ·) (es ++ [.listener]) ↔ c.connectionStatusCallback = true := by
      rw [meets_now hn, h.creator, hown.callback]
    rw [hc, Option.map_some, Option.some.injEq] at hs
    rw [← hs]
    refine ⟨hcreator, h.hub, c, hc,
      hown.later (by decide) (meets_later (by omega)) rfl rfl, ?_⟩
    rw [count_listener_snoc, hn]
    split_ifs with hinstalled
    · exact ⟨rfl, hB.mpr hinstalled, hreports, hsent⟩
    · have hnot := fun hB' => hinstalled (hB.mp hB')
      refine ⟨le_rfl, ?_, fun _ hB' => absurd hB' hnot⟩
      have hreports' : s.reports device ≠ 1 := by omega
      exact iff_of_false hreports' fun hBC => hnot hBC.1
  | callback =>
    rw [hphase] at hs hlistener hown
    obtain ⟨hn, hB, hreports, hsent⟩ := hlistener
    have hC : Meets 2 (fun n => n < 6 ∨ captured = deviceKey device.device_id)
        (es ++ [.listener]) ↔ s.deviceID device captured = deviceKey device.device_id := by
      rw [meets_now hn, h.creator, State.deviceID]
      cases s.creator <;> simp [Creator.steps]
    rw [if_pos h.hub, Option.some.injEq] at hs
    rw [← hs]
    refine ⟨hcreator, h.hub, c, hc, hown.later (by decide) (meets_later (by omega)) rfl rfl, ?_⟩
    rw [count_listener_snoc, hn]
    refine ⟨le_rfl, (meets_later (by omega)).mpr hB, ?_, hC, hsent⟩
    have hcalled : s.called.count (.deviceStatus (deviceKey device.device_id) .connected) = 0 :=
      hreports
    rw [hC, State.reports, List.count_append, hcalled, List.count_singleton]
    simp
  | gate deviceID =>
    rw [hphase] at hs hlistener hown
    obtain ⟨hn, hB, hreports, hC, hsent⟩ := hlistener
    cases hfind : s.hub.devices.find? deviceID with
    | none =>
      have hne : deviceID ≠ deviceKey device.device_id := by
        rintro rfl
        rw [hc] at hfind
        contradiction
      simp only [hfind, Option.some.injEq] at hs
      rw [← hs]
      refine h.settled hn rfl h.hub hc hown nofun rfl rfl ⟨by omega, ?_, fun hin => hne (hC.mp hin)⟩
      exact fun hone => hne (hC.mp (hreports.mp hone))
    | some c₁ =>
      simp only [hfind, Option.some.injEq] at hs
      rw [← hs]
      refine h.settled hn rfl h.hub hc hown nofun rfl rfl ?_
      split_ifs with hgate
      · exact ⟨by omega, hB, hreports, hC, hsent⟩
      · -- the gate is closed to the own connection only when the answer came too early
        refine ⟨by omega, hreports.trans (and_iff_right hB).symm, fun hA _ hin => ?_⟩
        rw [hC.mp hin, hc, Option.some.injEq] at hfind
        rw [← hfind] at hgate
        exact absurd ((hown.status nofun).mpr (Or.inl hA)) hgate
  | write deviceID =>
    rw [hphase] at hs hlistener hown
    obtain ⟨hn, hB, hreports, hC, hsent⟩ := hlistener
    have hreports' := hreports.trans (and_iff_right hB).symm
    obtain ⟨hub, hhub, rfl⟩ := Option.map_eq_some_iff.mp hs
    obtain ⟨c₁, hc₁, rfl⟩ := Option.map_eq_some_iff.mp hhub
    by_cases hown_id : deviceID = deviceKey device.device_id
    · subst hown_id
      obtain rfl := Option.some.inj (hc.symm.trans hc₁)
      refine h.settled hn rfl h.hub (OrderedMap.find?_insert_self _ _ _) hown nofun rfl rfl
        ⟨by omega, hreports', fun _ _ _ => ?_⟩
      rw [connects_call rfl rfl, hsent]
    · refine h.settled hn rfl h.hub ?_ hown nofun rfl rfl
        ⟨by omega, hreports', fun _ _ hin => absurd (hC.mp hin) hown_id⟩
      exact (OrderedMap.find?_insert_of_ne _ _ (Ne.symm hown_id)).trans hc
  | done | lost =>
    rw [hphase] at hs
    contradiction

theorem Known.initial (h : USBHub) :
    Known device captured [] (State.initial lib device h) := by
  refine ⟨rfl, rfl, _, OrderedMap.find?_insert_self _ _ _, ⟨?_, ?_, ?_⟩, rfl, rfl, rfl⟩
  · exact iff_of_false Bool.false_ne_true (Nat.not_succ_le_zero 3)
  · exact fun hanswered => absurd rfl hanswered
  · exact fun hanswered => absurd rfl hanswered

theorem known {h : USBHub}
    (run : Run (Step device captured packet) (State.initial lib device h) es s) :
    Known device captured es s := by
  refine run.history_invariant (fun es t e u hknown hs => ?_) (Known.initial h)
  cases e with
  | creator => exact hknown.create hs
  | listener => exact hknown.listen hs

/-- When both threads are done, the device has come up and was told its Connect exactly when
the statements of the answer came in time. -/
theorem brought_up_iff (lib : Library) (device : UsbDeviceInfo) (captured : ℤ) (packet : Bytes)
    (h : USBHub) (es : List Thread) (s : State)
    (run : Run (Step device captured packet) (State.initial lib device h) es s)
    (hdone : s.Finished) : BroughtUp device s ↔ Timely device captured es := by
  obtain ⟨-, -, c, hc, hown, hlistener⟩ := known run
  obtain ⟨hcreator, hend⟩ := hdone
  have hanswered : s.listener ≠ .answer := by
    rcases hend with hend | hend <;> simp [hend]
  have hstatus := hown.status hanswered
  rw [hcreator, or_iff_left (by decide)] at hstatus
  constructor
  · rintro ⟨⟨c', hc', hconnected, -⟩, hreports⟩
    obtain rfl := Option.some.inj (hc.symm.trans hc')
    rcases hend with hend | hend
    · rw [hend] at hlistener
      obtain ⟨-, hone, -⟩ := hlistener
      obtain ⟨hB, hC⟩ := hone.mp hreports
      exact ⟨hstatus.mp hconnected, hB, hC⟩
    · rw [hend] at hlistener
      exact absurd hreports hlistener.2.1
  · rintro ⟨hA, hB, hC⟩
    rcases hend with hend | hend
    · rw [hend] at hlistener
      obtain ⟨-, hone, hsent⟩ := hlistener
      exact ⟨⟨c, hc, hstatus.mpr hA, hsent hA hB hC⟩, hone.mpr ⟨hB, hC⟩⟩
    · rw [hend] at hlistener
      exact absurd hC hlistener.2.2

end

section

def phone : UsbDeviceInfo := ⟨1, 0, 0, 0, [], []⟩

def lateAnswer : List Thread :=
  List.replicate 5 .creator ++ List.replicate 5 .listener ++ [.creator]

theorem brought_up_iff_lateAnswer : ∃ s,
    Run (Step phone 7 []) (State.initial silentLibrary phone (USBHub.initial 5000)) lateAnswer s ∧
      s.Finished ∧ s.reports phone = 1 ∧ (BroughtUp phone s ↔ Timely phone 7 lateAnswer) := by
  have hend : ∃ s ∈ lateAnswer.foldlM (State.advance phone 7 [])
      (State.initial silentLibrary phone (USBHub.initial 5000)),
      s.creator = .done ∧ s.listener = .done ∧ s.reports phone = 1 := by
    decide +kernel
  obtain ⟨s, hs, hcreator, hlistener, hreports⟩ := hend
  have run : Run (Step phone 7 []) (State.initial silentLibrary phone (USBHub.initial 5000))
      lateAnswer s := Run.iff_foldlM.mpr hs
  have hdone : s.Finished := ⟨hcreator, Or.inl hlistener⟩
  exact ⟨s, run, hdone, hreports,
    brought_up_iff silentLibrary phone 7 [] (USBHub.initial 5000) lateAnswer s run hdone⟩

def fastAnswer : List Thread := List.replicate 2 .listener ++ List.replicate 6 .creator

theorem fast_answer_lost : ¬ ∀ (lib : Library) (device : UsbDeviceInfo) (captured : ℤ)
    (packet : Bytes) (h : USBHub) (es : List Thread) (s : State),
    Run (Step device captured packet) (State.initial lib device h) es s → s.Finished →
      BroughtUp device s := by
  intro hall
  have hend : ∃ s ∈ fastAnswer.foldlM (State.advance phone 1 [])
      (State.initial silentLibrary phone (USBHub.initial 5000)),
      s.creator = .done ∧ s.listener = .done ∧ s.reports phone = 0 := by
    decide +kernel
  obtain ⟨s, hs, hcreator, hlistener, hreports⟩ := hend
  have hup := hall silentLibrary phone 1 [] (USBHub.initial 5000) fastAnswer s
    (Run.iff_foldlM.mpr hs) ⟨hcreator, Or.inl hlistener⟩
  have hone := hup.reported
  rw [hreports] at hone
  contradiction

end

section
variable (device : UsbDeviceInfo) (captured : ℤ) (packet : Bytes)

theorem update_of_find? {f : Connection → Connection} {s : State} {c : Connection}
    (hc : s.hub.devices.find? (deviceKey device.device_id) = some c) :
    s.update device f =
      some { s with hub := s.hub.setDevice (deviceKey device.device_id) (f c) } := by
  rw [State.update, onDevice, hc, Option.map_some, Option.map_some]

theorem create_alone (lib : Library) (h : USBHub) :
    let hub := { h with receivedPacketCallback := true, deviceStatusCallback := true }
    (List.replicate 6 Thread.creator).foldlM (State.advance device captured packet)
        (State.initial lib device h) =
      some ⟨(hub.createDevice lib device).1, .done, .answer, (hub.createDevice lib device).2⟩ := by
  simp [List.replicate, State.advance, State.create, State.initial, update_of_find?,
    setDevice, createDevice]
  rfl

theorem answer_alone {s : State} {c : Connection} (hcreator : s.creator = .done)
    (hlistener : s.listener = .answer) (hhub : s.hub.deviceStatusCallback = true)
    (hc : s.hub.devices.find? (deviceKey device.device_id) = some c)
    (hcallback : c.connectionStatusCallback = true) :
    let r := c.resultReceived usbMuxReplyCodeOK
    let hub := s.hub.setDevice (deviceKey device.device_id) r.1
    ∃ hub', hub.sendPacketToDevice .connect (deviceKey device.device_id) packet = some hub' ∧
      (List.replicate 5 Thread.listener).foldlM
        (State.advance device (deviceKey device.device_id) packet) s =
          some ⟨hub', .done, .done, s.called ++ s.hub.raise (deviceKey device.device_id) r.2⟩ := by
  obtain ⟨hub, creator, listener, called⟩ := s
  obtain rfl : creator = .done := hcreator
  obtain rfl : listener = .answer := hlistener
  simp only at hhub hc
  simp [List.replicate, State.advance, State.listen, State.update, onDevice, hc, setDevice,
    hcallback, hhub, State.deviceID, sendPacketToDevice, hand, resultReceived, connectedRoutine,
    Connection.send, USBHub.raise]

end
end SwiftRobot.BringUp
