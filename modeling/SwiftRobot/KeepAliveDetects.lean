import SwiftRobot.ConnectionMoves
import SwiftRobot.KeepAliveDrops
import SwiftRobot.KeepAliveCycle

/-!
# Whom the keep-alive finds

Where the queue runs its closures in time, a client that has gone silent is dropped: the
next check behind its timeout probes it, and the re-check of that probe disconnects it.
-/

namespace SwiftRobot.KeepAliveDetects
open ByteWords PacketHeaders ClientDispatcher DispatcherRuns KeepAliveDrops KeepAliveCycle

def checkPeriod : ℕ := keepAliveCheckTimer + milliseconds keepAliveTimerRandomOffsetMax

section
variable {σ : Type} {fs gs : List (Env × Event)} {e : Env × Event} {env : Env} {i k : ℕ} {n : Bytes}
  {lib : Plist.Library} {app : Application σ} {d d' : ClientDispatcher} {t u v w : State σ}

theorem scheduled_step (hs : Step lib app v e w) :
    ∃ more, w.dispatcher.scheduled = v.dispatcher.scheduled ++ more ∧
      ∀ entry ∈ more, entry = nextCheck e.1 ∨ ∃ id, entry = recheck e.1 id := by
  obtain ⟨env, event⟩ := e
  obtain ⟨-, -, -, heffect⟩ := Step.effect hs
  simp only at heffect ⊢
  have hsame {d : ClientDispatcher} (h : d.scheduled = v.dispatcher.scheduled) :
      ∃ more, d.scheduled = v.dispatcher.scheduled ++ more ∧
        ∀ entry ∈ more, entry = nextCheck env ∨ ∃ id, entry = recheck env id :=
    ⟨[], by rw [h, List.append_nil], fun _ hentry => absurd hentry List.not_mem_nil⟩
  generalize w.dispatcher = d at heffect
  cases heffect with
  | calm _ _ hcalm => exact hsame hcalm.scheduled
  | noted _ _ hcalm _ => exact hsame hcalm.scheduled
  | started _ _ _ hcalm =>
    refine ⟨[nextCheck env], hcalm.scheduled, fun entry hentry => ?_⟩
    exact Or.inl (List.mem_singleton.mp hentry)
  | idle _ _ => exact hsame rfl
  | @checked i ids d₁ _ _ hprobed =>
    refine ⟨ids.map (recheck env) ++ [nextCheck env], ?_, fun entry hentry => ?_⟩
    · rw [startKeepAliveCheckCycle_eq, hprobed.scheduled, List.append_assoc]
    · rcases List.mem_append.mp hentry with hentry | hentry
      · obtain ⟨id, -, rfl⟩ := List.mem_map.mp hentry
        exact Or.inr ⟨id, rfl⟩
      · exact Or.inl (List.mem_singleton.mp hentry)
  | waited _ _ hcalm _ => exact hsame hcalm.scheduled

theorem nextCheck_due (env : Env) : (nextCheck env).1 ≤ env.now + checkPeriod := by
  have hoffset : env.random % keepAliveTimerRandomOffsetMax < keepAliveTimerRandomOffsetMax :=
    Nat.mod_lt _ (by decide)
  simp only [nextCheck, checkPeriod, milliseconds]
  omega

theorem registered_step (hs : Step lib app v e w)
    (h : (v.dispatcher.clients.find? n).isSome = true) :
    (w.dispatcher.clients.find? n).isSome = true := by
  obtain ⟨env, event⟩ := e
  obtain ⟨-, -, -, heffect⟩ := Step.effect hs
  simp only at heffect
  have hput {d : ClientDispatcher} {id : Bytes} {c : ExternalClient}
      (hcalm : Calm (v.dispatcher.setClient id c) d) : (d.clients.find? n).isSome = true := by
    rw [hcalm.clients, setClient, OrderedMap.find?_insert]
    split_ifs
    · rfl
    · exact h
  generalize w.dispatcher = d at heffect
  cases heffect with
  | calm _ _ hcalm => rwa [hcalm.clients]
  | noted _ _ hcalm _ => exact hput hcalm
  | started _ _ _ hcalm => rwa [hcalm.clients]
  | idle _ _ => exact h
  | checked _ _ hprobed => rwa [startKeepAliveCheckCycle_eq, hprobed.clients]
  | waited _ _ hcalm _ => exact hput hcalm

theorem probes_entries (l : List (Bytes × ExternalClient))
    (hl : ∀ e ∈ l, d.clients.find? e.1 = some e.2)
    (h : l.foldlM (fun d e =>
      let d := d.touch e.1
      if d.isTimedOut env e.1 then
        (d.sendKeepAliveRequest e.1).map
          (·.dispatchAfter env keepAliveWaitingTime (.keepAliveWait e.1))
      else some d) d = some d') {e : Bytes × ExternalClient} (he : e ∈ l)
    (htimed : d.isTimedOut env e.1 = true) :
    ∃ more, d'.scheduled = d.scheduled ++ more ∧ recheck env e.1 ∈ more := by
  induction l generalizing d with
  | nil => exact absurd he List.not_mem_nil
  | cons e₀ l ih =>
    obtain ⟨hfirst, hrest⟩ := List.forall_mem_cons.mp hl
    rw [List.foldlM_cons] at h
    obtain ⟨d₁, h₁, h₂⟩ := Option.bind_eq_some_iff.mp h
    simp only [touch_of_find? hfirst] at h₁
    obtain ⟨ids, hprobed, hids⟩ : ∃ ids, Probed env d ids d₁ ∧
        (d.isTimedOut env e₀.1 = true → ids = [e₀.1]) := by
      split_ifs at h₁ with htimed₀
      · obtain ⟨d₂, hsend, rfl⟩ := Option.map_eq_some_iff.mp h₁
        exact ⟨[e₀.1], probed_one hfirst htimed₀ hsend, fun _ => rfl⟩
      · exact ⟨[], Option.some.inj h₁ ▸ .nil env d, fun h => absurd h htimed₀⟩
    have hl₁ : ∀ e ∈ l, d₁.clients.find? e.1 = some e.2 := fun e he => by
      rw [hprobed.clients]
      exact hrest e he
    rcases List.mem_cons.mp he with rfl | he
    · obtain ⟨ids', hprobed'⟩ := probed_entries l hl₁ h₂
      refine ⟨recheck env e.1 :: ids'.map (recheck env), ?_, List.mem_cons_self⟩
      rw [hprobed'.scheduled, hprobed.scheduled, hids htimed]
      simp
    · obtain ⟨more, hmore, hmem⟩ := ih hl₁ h₂ he (by rw [isTimedOut_congr hprobed.clients, htimed])
      refine ⟨ids.map (recheck env) ++ more, ?_, List.mem_append_right _ hmem⟩
      rw [hmore, hprobed.scheduled, List.append_assoc]

theorem keepAliveCheck_probes (hrunning : d.keepAliveCheckRunning = true)
    (h : d.keepAliveCheck env = some d') :
    ∃ more, d'.scheduled = d.scheduled ++ more ∧ nextCheck env ∈ more ∧
      ((d.clients.find? n).isSome = true → d.isTimedOut env n = true → recheck env n ∈ more) := by
  unfold keepAliveCheck at h
  rw [if_pos hrunning] at h
  obtain ⟨d₁, hloop, h⟩ := Option.bind_eq_some_iff.mp h
  have hentries : ∀ e ∈ d.clients.entries, d.clients.find? e.1 = some e.2 :=
    fun e he => (d.clients.mem_entries_iff e.1 e.2).mp he
  obtain ⟨ids, hprobed⟩ := probed_entries d.clients.entries hentries hloop
  refine ⟨ids.map (recheck env) ++ [nextCheck env], ?_, by simp, fun hclient htimed => ?_⟩
  · rw [← Option.some.inj h, startKeepAliveCheckCycle_eq, hprobed.scheduled, List.append_assoc]
  · obtain ⟨c, hc⟩ := Option.isSome_iff_exists.mp hclient
    have hmem : (n, c) ∈ d.clients.entries := (d.clients.mem_entries_iff n c).mpr hc
    obtain ⟨more, hmore, hrecheck⟩ := probes_entries d.clients.entries hentries hloop hmem htimed
    rw [hprobed.scheduled, List.append_cancel_left_eq] at hmore
    rw [hmore]
    exact List.mem_append_left _ hrecheck

def Waits (task : Task) (p : ℕ → Prop) (v : State σ) : Prop :=
  ∃ i due, v.dispatcher.scheduled[i]? = some (due, task) ∧ i ∉ v.ran ∧ p due

theorem Waits.step {task : Task} {p : ℕ → Prop} (h : Waits task p v) (hs : Step lib app v e w) :
    Waits task p w ∨ ∃ i due, e.2 = .closure i ∧ v.due? e.1.now i = some task ∧ p due ∧
      v.dispatcher.scheduled[i]? = some (due, task) ∧ i ∉ v.ran ∧ due < e.1.now := by
  obtain ⟨i, due, hentry, hran, hdue⟩ := h
  obtain ⟨-, -, hran', -⟩ := Step.effect hs
  obtain ⟨more, hmore, -⟩ := scheduled_step hs
  by_cases he : e.2 = .closure i
  · obtain ⟨env, event⟩ := e
    obtain rfl : event = .closure i := he
    obtain ⟨task', r, hdue', -, -⟩ := step_closure hs
    obtain ⟨-, due', hentry', hlt⟩ := State.due?_eq_some.mp hdue'
    obtain ⟨rfl, rfl⟩ : due = due' ∧ task = task' := by
      simpa using hentry.symm.trans hentry'
    exact Or.inr ⟨i, due, rfl, hdue', hdue, hentry, hran, hlt⟩
  · refine Or.inl ⟨i, due, ?_, ?_, hdue⟩
    · rw [hmore, List.getElem?_append_left (List.getElem?_eq_some_iff.mp hentry).1, hentry]
    · rw [hran', List.mem_append, not_or]
      refine ⟨hran, fun hnow => he ?_⟩
      cases hevent : e.2 with
      | closure j =>
        rw [hevent, Event.ran, List.mem_singleton] at hnow
        rw [hnow]
      | _ =>
        rw [hevent] at hnow
        exact absurd hnow List.not_mem_nil

theorem waits_new {task : Task} {p : ℕ → Prop} {due : ℕ} {more : List (ℕ × Task)}
    (hcycling : Cycling k v) (hdue : (v.due? e.1.now i).isSome = true) (he : e.2 = .closure i)
    (hs : Step lib app v e w) (hmore : w.dispatcher.scheduled = v.dispatcher.scheduled ++ more)
    (hmem : (due, task) ∈ more) (hp : p due) : Waits task p w := by
  obtain ⟨-, -, hran, -⟩ := Step.effect hs
  obtain ⟨k, hk⟩ := List.getElem?_of_mem hmem
  refine ⟨v.dispatcher.scheduled.length + k, due, ?_, fun hold => ?_, hp⟩
  · rw [hmore, List.getElem?_append_right (Nat.le_add_right _ _), Nat.add_sub_cancel_left, hk]
  · rw [hran, he, Event.ran, List.mem_append, List.mem_singleton] at hold
    obtain ⟨task', htask⟩ := Option.isSome_iff_exists.mp hdue
    have hlt := (scheduled_of_due htask).2.1
    rcases hold with hold | hold
    · have hbound := hcycling.ran _ hold
      omega
    · omega

theorem getDeviceIDForClientID_named {hub : USBHub} {clientid : Bytes}
    (hpos : 0 ≤ hub.getDeviceIDForClientID clientid) :
    ∃ c, HubRouting.Named hub clientid (hub.getDeviceIDForClientID clientid) c ∧
      ∀ j c', HubRouting.Named hub clientid j c' → hub.getDeviceIDForClientID clientid ≤ j := by
  have hlive : ∃ k c, HubRouting.Named hub clientid k c := by
    by_contra hnone
    have hfirst : hub.devices.first (fun e => e.2.name == clientid) = none := by
      rw [OrderedMap.first_eq_none_iff]
      intro k c hc
      exact beq_eq_false_iff_ne.mpr fun hname => hnone ⟨k, c, hc, hname⟩
    rw [USBHub.getDeviceIDForClientID, hfirst] at hpos
    exact absurd hpos (by decide)
  obtain ⟨k, c, hc, hleast⟩ := HubRouting.exists_least hlive
  rw [HubRouting.getDeviceIDForClientID_eq hc hleast]
  exact ⟨c, hc, hleast⟩

theorem disconnect_idle {hub : USBHub} {captured : ℤ} {clientid : Bytes}
    {r : USBHub × List USBHub.Upcall} (h : hub.disconnect captured clientid = some r)
    (hpos : 0 ≤ r.1.getDeviceIDForClientID clientid) :
    ∀ c ∈ r.1.devices.find? (r.1.getDeviceIDForClientID clientid), c.status = .idle := by
  rw [USBHub.disconnect] at h
  split_ifs at h with hid
  · obtain ⟨c, hc, rfl⟩ := Option.map_eq_some_iff.mp h
    obtain ⟨c₀, hnamed, hleast⟩ := getDeviceIDForClientID_named hid
    obtain rfl : c₀ = c := Option.some.inj (hnamed.1.symm.trans hc)
    generalize hub.getDeviceIDForClientID clientid = k at hc hnamed hleast
    have hfind := OrderedMap.find?_insert_self hub.devices k c₀.disconnect.1
    have hname := (ConnectionMoves.seen_disconnect c₀).1
    have hsame : (hub.setDevice k c₀.disconnect.1).getDeviceIDForClientID clientid = k := by
      refine HubRouting.getDeviceIDForClientID_eq ⟨hfind, hname.trans hnamed.2⟩ fun j c' hc' => ?_
      by_cases hj : j = k
      · exact hj.ge
      · have hold : hub.devices.find? j = some c' :=
          (OrderedMap.find?_insert_of_ne hub.devices c₀.disconnect.1 hj).symm.trans hc'.1
        exact hleast j c' ⟨hold, hc'.2⟩
    intro c' hc'
    rw [hsame] at hc'
    obtain rfl : c₀.disconnect.1 = c' := Option.some.inj (hfind.symm.trans hc')
    exact ConnectionMoves.disconnect_status c₀
  · rw [← Option.some.inj h] at hpos
    exact absurd hpos hid

theorem Disconnects.idle (h : Disconnects v env i n) (hs : Step lib app v (env, .closure i) w) :
    Disconnected w.dispatcher n := by
  obtain ⟨task, r, hdue, hr, hw⟩ := step_closure hs
  obtain rfl : Task.keepAliveWait n = task := Option.some.inj (h.due.symm.trans hdue)
  have htouched : (v.dispatcher.touch n).isTimedOut env n = true := by
    rw [isTimedOut, client_touch]
    exact h.timedOut
  simp only [runTask, keepAliveWait, if_pos h.running, if_pos htouched] at hr
  rw [hw]
  rcases hubStep_same (fun _ _ hr => disconnect_reports hr) hr with
    ⟨hnone, hr⟩ | ⟨hub, r₁, -, hr₁, hr⟩
  · rw [hr]
    intro hub hhub
    rw [Option.mem_def, hnone] at hhub
    contradiction
  · rw [Reading.ofOption_value] at hr₁
    rw [hr]
    intro hub' hhub hpos
    obtain rfl : r₁.1 = hub' := Option.some.inj hhub
    exact disconnect_idle hr₁ hpos

/-- A re-check ran that called `USBHub::disconnect`, and left the client's connection idle. -/
def Dropped (lib : Plist.Library) (app : Application σ) (t : State σ) (gs : List (Env × Event))
    (n : Bytes) : Prop :=
  ∃ before env i after v w, gs = before ++ (env, .closure i) :: after ∧
    Run (Step lib app) t before v ∧ Step lib app v (env, .closure i) w ∧ Disconnects v env i n ∧
      Disconnected w.dispatcher n

theorem Dropped.append (h : Dropped lib app t gs n) (es : List (Env × Event)) :
    Dropped lib app t (gs ++ es) n := by
  obtain ⟨before, env, i, after, v, w, rfl, run, hs, hd⟩ := h
  exact ⟨before, env, i, after ++ es, v, w, by simp, run, hs, hd⟩

structure Silent (lib : Plist.Library) (app : Application σ) (t : State σ) (n : Bytes)
    (last limit delay : ℕ) (gs : List (Env × Event)) (v : State σ) : Prop where
  cycling : ∃ k, Cycling k v
  registered : (v.dispatcher.clients.find? n).isSome = true
  lastPacket : (v.dispatcher.client n).lastKeepAliveResponse = last
  progress : Waits .keepAliveCheck (· ≤ limit + checkPeriod) v ∨
    Waits (.keepAliveWait n) (fun due => last + keepAliveTimeout < due ∧
      due ≤ limit + checkPeriod + delay + keepAliveWaitingTime) v ∨ Dropped lib app t gs n

theorem Silent.running {last limit delay due : ℕ} {task : Task}
    (h : Silent lib app t n last limit delay gs v)
    (hentry : v.dispatcher.scheduled[i]? = some (due, task)) :
    v.dispatcher.keepAliveCheckRunning = true :=
  h.cycling.elim fun _ hcycling =>
    hcycling.running (List.ne_nil_of_mem (List.mem_of_getElem? hentry))

theorem Silent.timedOut_iff {last limit delay : ℕ}
    (h : Silent lib app t n last limit delay gs v) :
    v.dispatcher.isTimedOut env n = true ↔ last + keepAliveTimeout < env.now := by
  rw [isTimedOut, h.lastPacket, decide_eq_true_iff]

theorem Silent.check {last limit delay due : ℕ} (h : Silent lib app t n last limit delay gs v)
    (hlimit : last + keepAliveTimeout ≤ limit) (hs : Step lib app v (env, .closure i) w)
    (hdue : v.due? env.now i = some .keepAliveCheck)
    (hentry : v.dispatcher.scheduled[i]? = some (due, .keepAliveCheck))
    (hsoon : due ≤ limit + checkPeriod) (hnow : env.now ≤ due + delay) :
    Waits .keepAliveCheck (· ≤ limit + checkPeriod) w ∨
      Waits (.keepAliveWait n) (fun due => last + keepAliveTimeout < due ∧
        due ≤ limit + checkPeriod + delay + keepAliveWaitingTime) w := by
  obtain ⟨task, r, htask, hr, hw⟩ := step_closure hs
  obtain rfl : Task.keepAliveCheck = task := Option.some.inj (hdue.symm.trans htask)
  simp only [runTask, Reading.bind_value, Reading.ofOption_value] at hr
  obtain ⟨d', hcheck, hr⟩ := Option.bind_eq_some_iff.mp hr
  obtain ⟨more, hmore, hnext, hprobe⟩ := keepAliveCheck_probes (n := n) (h.running hentry) hcheck
  obtain ⟨k, hcycling⟩ := h.cycling
  have hw' : w.dispatcher.scheduled = v.dispatcher.scheduled ++ more := by
    rw [hw, ← Option.some.inj hr, ← hmore]
  have hsome : (v.due? env.now i).isSome = true := by
    rw [hdue]
    rfl
  by_cases htimed : v.dispatcher.isTimedOut env n = true
  · right
    have hold : last + keepAliveTimeout < env.now := h.timedOut_iff.mp htimed
    exact waits_new hcycling hsome rfl hs hw' (hprobe h.registered htimed) ⟨by omega, by omega⟩
  · left
    have hfresh : env.now ≤ last + keepAliveTimeout := by
      rwa [h.timedOut_iff, not_lt] at htimed
    have hdue' := nextCheck_due env
    exact waits_new hcycling hsome rfl hs hw' hnext (hdue'.trans (by omega))

theorem Silent.step {last limit delay : ℕ} (h : Silent lib app t n last limit delay gs v)
    (hlimit : last + keepAliveTimeout ≤ limit) (run : Run (Step lib app) t gs v)
    (hs : Step lib app v e w) (hsilent : ¬ Lives n e.2)
    (hpunctual : ∀ (i due : ℕ) (task : Task), v.dispatcher.scheduled[i]? = some (due, task) →
      i ∉ v.ran → e.1.now ≤ due + delay) :
    Silent lib app t n last limit delay (gs ++ [e]) w := by
  obtain ⟨k, hcycling⟩ := h.cycling
  refine ⟨⟨_, hcycling.step hs⟩, registered_step hs h.registered,
    ((updates_step hs n).keeps hsilent).trans h.lastPacket, ?_⟩
  obtain ⟨env, event⟩ := e
  rcases h.progress with hcheck | hwait | hdropped
  · rcases hcheck.step hs with hstill | ⟨i, due, he, hdue, hsoon, hentry, hran, -⟩
    · exact Or.inl hstill
    · obtain rfl : event = .closure i := he
      have hnow := hpunctual i due _ hentry hran
      rcases h.check hlimit hs hdue hentry hsoon hnow with hnext | hprobed
      · exact Or.inl hnext
      · exact Or.inr (Or.inl hprobed)
  · rcases hwait.step hs with hstill | ⟨i, due, he, hdue, ⟨hold, -⟩, hentry, -, hlt⟩
    · exact Or.inr (Or.inl hstill)
    · obtain rfl : event = .closure i := he
      have hd : Disconnects v env i n :=
        ⟨hdue, h.running hentry, h.timedOut_iff.mpr (hold.trans hlt)⟩
      exact Or.inr (Or.inr ⟨gs, env, i, [], v, w, rfl, run, hs, hd, Disconnects.idle hd hs⟩)
  · exact Or.inr (Or.inr (hdropped.append [(env, event)]))

end

def subscribed : List (Env × Event) :=
  [(at' 0, .start), (at' 1, .hub connectedHub),
    (at' 2, .packet [65] PacketType.subscribeRequest.code 2 [1, 0])]

end SwiftRobot.KeepAliveDetects
