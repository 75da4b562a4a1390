import SwiftRobot.ConnectionMoves

/-!
# What the application is told of its clients

The application is told CONNECTED on every Connect and ConnectAck, and never that a connection
has gone: the dispatcher ignores what the hub reports as disconnected.
-/

namespace SwiftRobot.StatusUpdates
open ByteWords Reading PacketHeaders Plist Connection ClientDispatcher HubEvents ConnectionMoves
open DispatcherRuns hiding Event Step Effect

section
variable {σ : Type} (n : Bytes) (s : State (σ × List Update))

def Tracks : Prop :=
  lastUpdate n s.app.2 = some .connected ↔ ∃ h ∈ s.dispatcher.usbHubPtr, HubRouting.Live h n

/-- One device at a time is connected under the name. -/
def Single : Prop := ∀ i j, standing s.dispatcher i = some (n, .connected) →
  standing s.dispatcher j = some (n, .connected) → i = j

/-- The event neither takes a connection down that is connected under the name or gives it
another name, nor brings one up that has the name, nor announces one that is not connected. -/
def Keeps (env : Env) : Event → Prop
  | .broadcast plist_message => ∀ i ∈ concerned? plist_message,
      standing s.dispatcher i ≠ some (n, .connected)
  | .plist i plist_message => ∀ status, standing s.dispatcher i = some (n, status) →
      (result? plist_message = some usbMuxReplyCodeOK → status = .connected) ∧
      (result? plist_message = some usbMuxReplyCodeConnectionRefused → status ≠ .connected)
  | .frame i type payload tail =>
    type = PacketType.connect.code ∨ type = PacketType.connectAck.code →
      ∀ name ∈ ((cstring 0) (payload ++ tail)).value, ∀ old status,
        standing s.dispatcher i = some (old, status) →
          (status = .connected → old = n → name = n) ∧
          (name = n → status = .connected ∨ ∃ j, standing s.dispatcher j = some (n, .connected))
  | .stop => s.dispatcher.connection_type = .usb →
      ∀ i, standing s.dispatcher i ≠ some (n, .connected)
  | .closure k => ∀ clientid, KeepAliveDrops.Disconnects s env k clientid →
      ∀ h ∈ s.dispatcher.usbHubPtr, 0 ≤ h.getDeviceIDForClientID clientid →
        standing s.dispatcher (h.getDeviceIDForClientID clientid) ≠ some (n, .connected)
  | _ => True

end
theorem live_iff {n : Bytes} {d : ClientDispatcher} :
    (∃ h ∈ d.usbHubPtr, HubRouting.Live h n) ↔ ∃ i, standing d i = some (n, .connected) := by
  simp only [standing, HubRouting.Live, HubRouting.Named, Option.bind_eq_some_iff,
    Option.map_eq_some_iff, Prod.mk.injEq, Option.mem_def]
  constructor
  · rintro ⟨h, hh, i, c, ⟨hc, hname⟩, hstatus⟩
    exact ⟨i, h, hh, c, hc, hname, hstatus⟩
  · rintro ⟨i, h, hh, c, hc, hname, hstatus⟩
    exact ⟨h, hh, i, c, ⟨hc, hname⟩, hstatus⟩

section
variable {σ : Type} {lib : Library} {env : Env} {app : Application σ} {n : Bytes}
  {s u : State (σ × List Update)} {e : Event}

inductive Effect (env : Env) (s u : State (σ × List Update)) (e : Event) : Prop
  | same : (∀ j, standing u.dispatcher j = standing s.dispatcher j) →
    (∀ n, lastUpdate n u.app.2 = lastUpdate n s.app.2) →
    (Wired s.dispatcher → Wired u.dispatcher) → (∀ n, Keeps n s env e) → Effect env s u e
  | down (i : ℤ) (v : Bytes × ConnectionStatus) :
    Moves none i v (pair s) (pair u) → v.2 ≠ .connected →
    (∀ n, Keeps n s env e ↔ standing s.dispatcher i ≠ some (n, .connected)) → Effect env s u e
  | up (i : ℤ) (name : Bytes) (status : ConnectionStatus) :
    standing s.dispatcher i = some (name, status) →
    Moves none i (name, .connected) (pair s) (pair u) →
    (∀ n, Keeps n s env e ↔ (name = n → status = .connected)) → Effect env s u e
  | named (i : ℤ) (old name : Bytes) (status : ConnectionStatus) :
    standing s.dispatcher i = some (old, status) →
    Moves (some name) i (name, status) (pair s) (pair u) →
    (∀ n, Keeps n s env e ↔ (status = .connected → old = n → name = n) ∧
      (name = n → status = .connected ∨ ∃ j, standing s.dispatcher j = some (n, .connected))) →
    Effect env s u e
  | closed : (∀ j n, standing u.dispatcher j ≠ some (n, .connected)) →
    (∀ n, lastUpdate n u.app.2 = lastUpdate n s.app.2) →
    (Wired s.dispatcher → Wired u.dispatcher) →
    (∀ n, Keeps n s env e ↔ ∀ i, standing s.dispatcher i ≠ some (n, .connected)) →
    Effect env s u e

theorem Effect.quiet (hquiet : Quiet none (pair s) (pair u)) (hkeeps : ∀ n, Keeps n s env e) :
    Effect env s u e := by
  refine .same hquiet.stays.standing (fun n => ?_) hquiet.stays.wired hkeeps
  have hupdates := hquiet.updates n
  rw [if_neg (by simp)] at hupdates
  exact hupdates

theorem Effect.result {i : ℤ} {name : Bytes} {status : ConnectionStatus} {code : Option Int32}
    (hstanding : standing s.dispatcher i = some (name, status))
    (hmoves : Moves none i (name, afterResult code status) (pair s) (pair u))
    (hkeeps : ∀ n, Keeps n s env e ↔ (name = n →
      (code = some usbMuxReplyCodeOK → status = .connected) ∧
      (code = some usbMuxReplyCodeConnectionRefused → status ≠ .connected))) :
    Effect env s u e := by
  have hcodes : usbMuxReplyCodeOK ≠ usbMuxReplyCodeConnectionRefused := by decide
  unfold afterResult at hmoves
  split_ifs at hmoves with hok hrefused
  · refine .up i name status hstanding hmoves fun n => ?_
    rw [hkeeps, hok]
    simp [hcodes]
  · refine .down i (name, .wantingConnection) hmoves nofun fun n => ?_
    rw [hkeeps, hrefused, hstanding]
    simp [hcodes.symm]
  · refine .same (fun j => ?_) (fun n => ?_) hmoves.wired fun n => ?_
    · have hj := hmoves.standing j
      split_ifs at hj with hji
      · rw [hji, hstanding]
        exact hji ▸ hj
      · exact hj
    · have hupdates := hmoves.updates n
      rw [if_neg (by simp)] at hupdates
      exact hupdates
    · rw [hkeeps]
      exact fun _ => ⟨fun h => absurd h hok, fun h => absurd h hrefused⟩

theorem Effect.of_step {e : Env × Event} (hwired : Wired s.dispatcher)
    (h : Step lib (recording app) s e u) : Effect e.1 s u e.2 := by
  unfold Step advance at h
  split_ifs at h
  obtain ⟨r', hr', rfl⟩ := Option.map_eq_some_iff.mp h
  obtain ⟨env, e⟩ := e
  cases e with
  | broadcast plist_message =>
    rcases broadcast_effect hr' with ⟨hquiet, hnone⟩ | ⟨i, hi, v, hv, hmoves⟩
    · refine .quiet hquiet fun n i hi => ?_
      rw [hnone i hi]
      exact nofun
    · refine .down i v hmoves hv fun n => ⟨fun hkeeps => hkeeps i hi, fun hne j hj => ?_⟩
      rw [Option.mem_def, Option.mem_def.mp hi, Option.some.injEq] at hj
      rw [← hj]
      exact hne
  | plist i plist_message =>
    rcases plist_effect hr' with ⟨hquiet, hnone⟩ | ⟨name, status, hstanding, hmoves⟩
    · refine .quiet hquiet fun n status hstatus => ?_
      rw [hnone] at hstatus
      contradiction
    · refine .result hstanding hmoves fun n => ?_
      -- the condition speaks of this one connection
      simp only [Keeps, hstanding, Option.some.injEq, Prod.mk.injEq]
      constructor
      · rintro h rfl
        exact h status ⟨rfl, rfl⟩
      · rintro h _ ⟨hname, rfl⟩
        exact h hname
  | frame i type payload tail =>
    rcases frame_effect hwired hr' with ⟨hquiet, hnone⟩ | ⟨htype, old, status, hstanding, name,
      hname, hmoves⟩
    · refine .quiet hquiet fun n htype name _ old status hstanding => ?_
      rw [hnone htype] at hstanding
      contradiction
    · refine .named i old name status hstanding hmoves fun n => ?_
      constructor
      · intro hkeeps
        exact hkeeps htype name hname old status hstanding
      · intro hkeeps _ name' hname' old' status' hstanding'
        rw [hstanding, Option.some.injEq, Prod.mk.injEq] at hstanding'
        obtain ⟨rfl, rfl⟩ := hstanding'
        rw [Option.mem_def, Option.mem_def.mp hname, Option.some.injEq] at hname'
        rw [← hname']
        exact hkeeps
  | stop =>
    rcases stop_effect hr' with ⟨husb, hquiet⟩ | ⟨husb, hdown, hupdates, hwired'⟩
    · exact .quiet hquiet fun n h => absurd h husb
    · exact .closed hdown hupdates hwired' fun n => ⟨fun hkeeps => hkeeps husb, fun h _ => h⟩
  | closure k =>
    rcases closure_effect hr' with ⟨hquiet, hnone⟩ | ⟨clientid, hdrops, hub, hhub, hid, name, hmoves⟩
    · exact .quiet hquiet fun n clientid hd hub hhub hid => absurd hid (hnone clientid hd hub hhub)
    · refine .down _ (name, .idle) hmoves nofun fun n => ?_
      constructor
      · intro hkeeps
        exact hkeeps clientid hdrops hub hhub hid
      · intro hne clientid' hd hub' hhub' _
        obtain rfl := Task.keepAliveWait.inj (Option.some.inj (hdrops.due.symm.trans hd.due))
        obtain rfl := Option.some.inj ((Option.mem_def.mp hhub).symm.trans hhub')
        exact hne
  | dispatchMessage channel msg size type =>
    obtain ⟨d', hd', rfl⟩ := Option.map_eq_some_iff.mp hr'
    exact .quiet (.of_same (dispatchMessage_stays hd') rfl) fun n => trivial
  | subscribeRequest channel =>
    rw [← Option.some.inj hr']
    exact .quiet (.of_same (subscribeRequest_stays channel) rfl) fun n => trivial
  | start =>
    rw [← Option.some.inj hr']
    exact .quiet (.of_same (start_stays _) rfl) fun n => trivial

theorem Effect.wired (h : Effect env s u e) (hwired : Wired s.dispatcher) : Wired u.dispatcher := by
  cases h with
  | same _ _ hw _ => exact hw hwired
  | down i v hmoves _ _ => exact hmoves.wired hwired
  | up i name status _ hmoves _ => exact hmoves.wired hwired
  | named i old name status _ hmoves _ => exact hmoves.wired hwired
  | closed _ _ hw _ => exact hw hwired

theorem tracks_iff_up : Tracks n s ↔ (lastUpdate n s.app.2 = some .connected ↔ Up n s) := by
  rw [Tracks, live_iff, Up]

theorem Tracks.iff_of_same (hu : lastUpdate n u.app.2 = lastUpdate n s.app.2)
    (hup : Up n u ↔ Up n s) : Tracks n u ↔ Tracks n s := by
  rw [tracks_iff_up, tracks_iff_up, hu, hup]

theorem Effect.tracks (h : Effect env s u e) (htracks : Tracks n s) (hkeeps : Keeps n s env e) :
    Tracks n u := by
  cases h with
  | same hstanding hupdates _ _ =>
    refine (Tracks.iff_of_same (hupdates n) (exists_congr fun j => ?_)).mpr htracks
    rw [hstanding]
  | down i v hmoves hv hiff =>
    have hne := (hiff n).mp hkeeps
    refine (Tracks.iff_of_same (hmoves.updates_of_ne nofun) (hmoves.up_iff ?_)).mpr htracks
    exact iff_of_false hne fun hvn => hv (congrArg Prod.snd hvn)
  | up i name status hstanding hmoves hiff =>
    have hcame := (hiff n).mp hkeeps
    refine (Tracks.iff_of_same (hmoves.updates_of_ne nofun) (hmoves.up_iff ?_)).mpr htracks
    rw [hstanding, Option.some.injEq, Prod.mk.injEq, Prod.mk.injEq, and_iff_left rfl]
    exact ⟨And.left, fun hname => ⟨hname, hcame hname⟩⟩
  | named i old name status hstanding hmoves hiff =>
    obtain ⟨hstays, hconnected⟩ := (hiff n).mp hkeeps
    by_cases hname : name = n
    · -- the name is announced, and a CONNECTED connection has it
      subst hname
      rw [tracks_iff_up]
      refine iff_of_true hmoves.updates_self ?_
      rcases hconnected rfl with hstatus | ⟨j, hj⟩
      · exact ⟨i, by rw [hmoves.standing_self, hstatus]⟩
      · by_cases hji : j = i
        · rw [hji, hstanding, Option.some.injEq, Prod.mk.injEq] at hj
          exact ⟨i, by rw [hmoves.standing_self, hj.2]⟩
        · exact ⟨j, by rw [hmoves.standing_iff hji, hj]⟩
    · refine (Tracks.iff_of_same (hmoves.updates_of_ne (by simpa using hname))
        (hmoves.up_iff ?_)).mpr htracks
      rw [hstanding, Option.some.injEq, Prod.mk.injEq, Prod.mk.injEq]
      exact iff_of_false (fun h => hname (hstays h.2 h.1)) fun h => hname h.1
  | closed hdown hupdates _ hiff =>
    refine (Tracks.iff_of_same (hupdates n) (iff_of_false ?_ ?_)).mpr htracks
    · exact fun ⟨j, hj⟩ => hdown j n hj
    · exact fun ⟨j, hj⟩ => (hiff n).mp hkeeps j hj

theorem Effect.keeps (h : Effect env s u e) (hs : Tracks n s) (hu : Tracks n u)
    (hsingle : Single n s) (hsingle' : Single n u) : Keeps n s env e := by
  rw [tracks_iff_up] at hs hu
  cases h with
  | same _ _ _ hiff => exact hiff n
  | down i v hmoves hv hiff =>
    rw [hiff]
    intro hi
    have hnot := hmoves.not_up (fun hvn => hv (congrArg Prod.snd hvn))
      fun j hj => hsingle j i hj hi
    rw [hmoves.updates_of_ne nofun] at hu
    exact hnot (hu.mp (hs.mpr ⟨i, hi⟩))
  | up i name status hstanding hmoves hiff =>
    rw [hiff]
    rintro rfl
    -- it was announced, so some connection was up already, and it can only be this one
    have hi := hmoves.standing_self
    rw [hmoves.updates_of_ne nofun] at hu
    obtain ⟨j, hj⟩ := hs.mp (hu.mpr ⟨i, hi⟩)
    by_cases hji : j = i
    · rw [hji, hstanding, Option.some.injEq, Prod.mk.injEq] at hj
      exact hj.2
    · exact absurd (hsingle' j i ((hmoves.standing_iff hji).trans hj) hi) hji
  | named i old name status hstanding hmoves hiff =>
    rw [hiff]
    constructor
    · rintro rfl rfl
      by_contra hname
      have hnot := hmoves.not_up (fun h => hname (congrArg Prod.fst h))
        fun j hj => hsingle j i hj hstanding
      rw [hmoves.updates_of_ne (by simpa using hname)] at hu
      exact hnot (hu.mp (hs.mpr ⟨i, hstanding⟩))
    · rintro rfl
      obtain ⟨j, hj⟩ := hu.mp hmoves.updates_self
      by_cases hji : j = i
      · rw [hji, hmoves.standing_self, Option.some.injEq, Prod.mk.injEq] at hj
        exact Or.inl hj.2
      · exact Or.inr ⟨j, (hmoves.standing_iff hji).symm.trans hj⟩
  | closed hdown hupdates _ hiff =>
    rw [hiff]
    intro j hj
    rw [hupdates n] at hu
    obtain ⟨k, hk⟩ := hu.mp (hs.mpr ⟨j, hj⟩)
    exact hdown k n hk

end

section
variable {σ : Type}

theorem tracks_initial (n name : Bytes) (port : UInt16) (a : σ) :
    Wired (State.initial name port .usb (a, ([] : List Update))).dispatcher ∧
      Tracks n (State.initial name port .usb (a, ([] : List Update))) := by
  constructor
  · rintro _ ⟨⟩
    exact ⟨rfl, fun i c hc => by contradiction⟩
  · rw [tracks_iff_up]
    exact iff_of_false nofun fun ⟨i, hi⟩ => by contradiction

/-- Where one device at a time is connected under a name, the last update for it tells at
every moment whether a connection is CONNECTED under it exactly when every event keeps it so. -/
theorem tracks_iff (lib : Library) (app : Application σ) (name : Bytes) (port : UInt16) (a : σ)
    (es : List (Env × Event)) (n : Bytes)
    (hsingle : ∀ fs t, fs <+: es →
      Run (Step lib (recording app)) (.initial name port .usb (a, [])) fs t → Single n t) :
    (∀ fs t, fs <+: es → Run (Step lib (recording app)) (.initial name port .usb (a, [])) fs t →
      Tracks n t) ↔
    ∀ fs t e u, fs ++ [e] <+: es →
      Run (Step lib (recording app)) (.initial name port .usb (a, [])) fs t →
      Step lib (recording app) t e u → Keeps n t e.1 e.2 := by
  obtain ⟨hwired₀, htracks₀⟩ := tracks_initial n name port a
  have hwired : ∀ fs t, Run (Step lib (recording app)) (.initial name port .usb (a, [])) fs t →
      Wired t.dispatcher := fun fs t run =>
    run.invariant (I := fun t => Wired t.dispatcher)
      (fun t e u hw hs => (Effect.of_step hw hs).wired hw) hwired₀
  constructor
  · intro htracks fs t e u hfs run hs
    have hprefix : fs <+: es := (List.prefix_append _ _).trans hfs
    exact (Effect.of_step (hwired fs t run) hs).keeps (htracks fs t hprefix run)
      (htracks _ u hfs (run.snoc hs)) (hsingle fs t hprefix run) (hsingle _ u hfs (run.snoc hs))
  · intro hkeeps fs t hfs run
    exact Run.history_invariant_of_takes (I := fun _ t => Tracks n t) htracks₀
      (fun fs t e u hfs run hs h =>
        (Effect.of_step (hwired fs t run) hs).tracks h (hkeeps fs t e u hfs run hs)) hfs run

def Lone (t : State (σ × List Update)) : Prop :=
  ∀ hub ∈ t.dispatcher.usbHubPtr, hub.devices.entries.length ≤ 1

instance (t : State (σ × List Update)) : Decidable (Lone t) :=
  inferInstanceAs (Decidable (∀ hub ∈ t.dispatcher.usbHubPtr, hub.devices.entries.length ≤ 1))

theorem standing_mem {d : ClientDispatcher} {i : ℤ} {v : Bytes × ConnectionStatus}
    (h : standing d i = some v) : ∃ hub ∈ d.usbHubPtr, ∃ c, (i, c) ∈ hub.devices.entries ∧
      (c.name, c.status) = v := by
  obtain ⟨hub, hhub, h⟩ := Option.bind_eq_some_iff.mp h
  obtain ⟨c, hc, hv⟩ := Option.map_eq_some_iff.mp h
  exact ⟨hub, hhub, c, (hub.devices.mem_entries_iff i c).mpr hc, hv⟩

theorem Lone.single {t : State (σ × List Update)} (h : Lone t) (n : Bytes) : Single n t := by
  intro i j hi hj
  obtain ⟨hub, hhub, c, hc, -⟩ := standing_mem hi
  obtain ⟨hub', hhub', c', hc', -⟩ := standing_mem hj
  obtain rfl := Option.some.inj (hhub.symm.trans hhub')
  have hone := h hub hhub
  cases hentries : hub.devices.entries with
  | nil =>
    rw [hentries] at hc
    exact absurd hc List.not_mem_nil
  | cons e rest =>
    have hrest : rest = [] := by
      rw [hentries, List.length_cons] at hone
      exact List.length_eq_zero_iff.mp (by omega)
    rw [hentries, hrest, List.mem_singleton] at hc hc'
    exact congrArg Prod.fst (hc.trans hc'.symm)

end

section

def during (ms : ℕ) : Env := { at' ms with captured := 1 }

def phoneUp : List (Env × Event) :=
  [(during 1, .broadcast (HubRouting.attached 1)), (during 2, .plist 1 HubRouting.resultOK),
    (during 3, .frame 1 PacketType.connectAck.code (text "A" ++ [0, 0, 0]) [])]

theorem tracks_iff_phoneUp : ∃ t, Run (Step silentLibrary (recording silentApp))
    (.initial [66] 5000 .usb ((), [])) phoneUp t ∧
      lastUpdate (text "A") t.app.2 = some .connected ∧
    ((∀ fs t, fs <+: phoneUp → Run (Step silentLibrary (recording silentApp))
      (.initial [66] 5000 .usb ((), [])) fs t → Tracks (text "A") t) ↔
    ∀ fs t e u, fs ++ [e] <+: phoneUp → Run (Step silentLibrary (recording silentApp))
      (.initial [66] 5000 .usb ((), [])) fs t →
      Step silentLibrary (recording silentApp) t e u → Keeps (text "A") t e.1 e.2) := by
  have hend : ∃ t ∈ phoneUp.foldlM (advance silentLibrary (recording silentApp))
      (.initial [66] 5000 .usb ((), [])), lastUpdate (text "A") t.app.2 = some .connected := by
    decide +kernel
  have hlone : (phoneUp.foldlM (fun s e =>
      (advance silentLibrary (recording silentApp) s e).filter fun t => decide (Lone t))
      (.initial [66] 5000 .usb ((), []))).isSome := by
    decide +kernel
  obtain ⟨t, ht, hlast⟩ := hend
  exact ⟨t, Run.iff_foldlM.mpr ht, hlast,
    tracks_iff silentLibrary silentApp [66] 5000 () phoneUp (text "A") fun fs t hfs run =>
      Lone.single (Run.visited_of_foldlM (P := Lone) (by decide) hlone hfs run) _⟩

def unplugged : List (Env × Event) :=
  phoneUp ++ [(during 4, .broadcast (HubRouting.detached 1))]

theorem unplugged_phone_connected : ¬ ∀ (lib : Library) (app : Application Unit) (name : Bytes)
    (port : UInt16) (es : List (Env × Event)) (n : Bytes),
    (∀ fs t, fs <+: es → Run (Step lib (recording app)) (.initial name port .usb ((), [])) fs t →
      Single n t) →
    ∀ t, Run (Step lib (recording app)) (.initial name port .usb ((), [])) es t → Tracks n t := by
  intro hall
  have hend : ∃ t ∈ unplugged.foldlM (advance silentLibrary (recording silentApp))
      (.initial [66] 5000 .usb ((), [])), lastUpdate (text "A") t.app.2 = some .connected ∧
        ∀ hub ∈ t.dispatcher.usbHubPtr, ∀ e ∈ hub.devices.entries, e.2.status ≠ .connected := by
    decide +kernel
  have hlone : (unplugged.foldlM (fun s e =>
      (advance silentLibrary (recording silentApp) s e).filter fun t => decide (Lone t))
      (.initial [66] 5000 .usb ((), []))).isSome := by
    decide +kernel
  obtain ⟨t, ht, hlast, hdown⟩ := hend
  have htracks := hall silentLibrary silentApp [66] 5000 unplugged (text "A")
    (fun fs t hfs run => Lone.single (Run.visited_of_foldlM (P := Lone) (by decide) hlone hfs run) _)
    t (Run.iff_foldlM.mpr ht)
  obtain ⟨i, hi⟩ := (tracks_iff_up.mp htracks).mp hlast
  obtain ⟨hub, hhub, c, hc, hv⟩ := standing_mem hi
  exact hdown hub hhub (i, c) hc (congrArg Prod.snd hv)

end
end SwiftRobot.StatusUpdates
