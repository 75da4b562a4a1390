import SwiftRobot.DispatcherRuns

/-!
# Whom the keep-alive drops

A client that was silent for too long is probed, and looked at again a second later. The
re-check compares the time of its last packet with the clock, and does not ask whether
the probe was answered: when the queue runs it late, an answer can be too old for it.
-/

namespace SwiftRobot.KeepAliveDrops
open ByteWords PacketHeaders ClientDispatcher DispatcherRuns

def Lives (n : Bytes) : Event → Prop
  | .packet clientid type _ _ => clientid = n ∧ ∃ kind ∈ PacketType.ofCode? type, alive kind = true
  | _ => False

section
variable {σ : Type} {es fs : List (Env × Event)} {e : Env × Event} {env : Env} {i : ℕ} {n : Bytes}
  {lib : Plist.Library} {app : Application σ} {st t u : State σ}

structure Disconnects (t : State σ) (env : Env) (i : ℕ) (n : Bytes) : Prop where
  due : t.due? env.now i = some (.keepAliveWait n)
  running : t.dispatcher.keepAliveCheckRunning = true
  timedOut : t.dispatcher.isTimedOut env n = true

def SentAt (lib : Plist.Library) (app : Application σ) (st : State σ) (n : Bytes)
    (before : List (Env × Event)) (e : Env × Event) : Prop :=
  ∃ t u, Run (Step lib app) st before t ∧ Step lib app t e u ∧
    probe n ∈ u.dispatcher.handed.drop t.dispatcher.handed.length

/-- A probe was sent early enough and nothing came from `n` since, and what came before
is too old. -/
structure Justified (lib : Plist.Library) (app : Application σ) (st : State σ)
    (fs : List (Env × Event)) (n : Bytes) (now : ℕ) : Prop where
  probed : ∃ before e after, fs = before ++ e :: after ∧ SentAt lib app st n before e ∧
    e.1.now + keepAliveWaitingTime ≤ now ∧ ∀ f ∈ after, ¬ Lives n f.2
  silent : ∀ f ∈ fs, Lives n f.2 → f.1.now + keepAliveTimeout < now

/-- A re-check runs no later than the timeout after any packet that came from its client
since the probe. -/
def Prompt (fs : List (Env × Event)) (t : State σ) (env : Env) (i : ℕ) : Prop :=
  ∀ due n, t.dispatcher.scheduled[i]? = some (due, .keepAliveWait n) →
    ∀ f ∈ fs, Lives n f.2 → due ≤ f.1.now + keepAliveWaitingTime →
      env.now ≤ f.1.now + keepAliveTimeout

structure Timed (lib : Plist.Library) (app : Application σ) (st : State σ)
    (fs : List (Env × Event)) (t : State σ) : Prop where
  clock : ∀ f ∈ fs, f.1.now ≤ t.clock
  monotone : fs.Pairwise fun a b => a.1.now ≤ b.1.now
  last : ∀ n, ∀ f ∈ fs, Lives n f.2 → f.1.now ≤ (t.dispatcher.client n).lastKeepAliveResponse
  hub : t.dispatcher.scheduled ≠ [] → t.dispatcher.usbHubPtr.isSome = true
  probes : ∀ due n, (due, .keepAliveWait n) ∈ t.dispatcher.scheduled →
    ∃ before e after, fs = before ++ e :: after ∧ SentAt lib app st n before e ∧
      due = e.1.now + keepAliveWaitingTime

theorem alive_looksUp {kind : PacketType} (h : alive kind = true) : looksUp kind = true := by
  cases kind <;> first | rfl | contradiction

theorem not_lives_of_plain {e : Event} (h : e.Plain) : ¬ Lives n e := by
  cases e with
  | packet clientid type length memory =>
    rintro ⟨-, kind, hkind, halive⟩
    have hnot := h kind hkind
    rw [alive_looksUp halive] at hnot
    contradiction
  | _ => exact id

theorem client_congr {d d' : ClientDispatcher} (h : d'.clients = d.clients) :
    d'.client n = d.client n := by
  rw [client, client, h]

structure Updates (env : Env) (n : Bytes) (e : Event) (d d' : ClientDispatcher) : Prop where
  lives : Lives n e → (d'.client n).lastKeepAliveResponse = env.now
  keeps : ¬ Lives n e →
    (d'.client n).lastKeepAliveResponse = (d.client n).lastKeepAliveResponse

theorem Updates.of_same {e : Event} {d d' : ClientDispatcher} (he : ¬ Lives n e)
    (h : d'.client n = d.client n) : Updates env n e d d' :=
  ⟨fun hlives => absurd hlives he, fun _ => by rw [h]⟩

theorem Updates.of_noted {clientid memory : Bytes} {type : UInt32} {length : ℕ} {kind : PacketType}
    {c : ExternalClient} {d d' : ClientDispatcher} (hkind : PacketType.ofCode? type = some kind)
    (hcalm : Calm (d.setClient clientid c) d')
    (hlast : c.lastKeepAliveResponse =
      if alive kind then env.now else (d.client clientid).lastKeepAliveResponse) :
    Updates env n (.packet clientid type length memory) d d' := by
  have hclient := client_congr (n := n) hcalm.clients
  rw [client_setClient] at hclient
  constructor
  · rintro ⟨hid, kind', hkind', halive⟩
    rw [Option.mem_def, hkind, Option.some.injEq] at hkind'
    rw [hclient, if_pos hid.symm, hlast, hkind', if_pos halive]
  · intro hnot
    rw [hclient]
    split_ifs with hid
    · have hdead : ¬ alive kind = true := fun halive => hnot ⟨hid.symm, kind, hkind, halive⟩
      rw [hlast, if_neg hdead, hid]
    · rfl

theorem updates_step (hs : Step lib app t e u) (n : Bytes) :
    Updates e.1 n e.2 t.dispatcher u.dispatcher := by
  obtain ⟨env, event⟩ := e
  obtain ⟨-, -, -, heffect⟩ := Step.effect hs
  simp only at heffect ⊢
  generalize u.dispatcher = d at heffect
  cases heffect with
  | calm hplain _ hcalm => exact .of_same (not_lives_of_plain hplain) (client_congr hcalm.clients)
  | noted hkind _ hcalm hlast => exact .of_noted hkind hcalm hlast
  | started _ _ _ hcalm => exact .of_same id (client_congr hcalm.clients)
  | idle _ _ => exact .of_same id rfl
  | checked _ _ hprobed => exact .of_same id (client_congr hprobed.clients)
  | waited _ _ hcalm _ =>
    exact .of_same id ((client_congr hcalm.clients).trans (client_touch _ _ _))

theorem schedules_step (hhub : t.dispatcher.scheduled ≠ [] → t.dispatcher.usbHubPtr.isSome = true)
    (hs : Step lib app t e u) :
    (u.dispatcher.scheduled ≠ [] → u.dispatcher.usbHubPtr.isSome = true) ∧
    ∀ due n, (due, .keepAliveWait n) ∈ u.dispatcher.scheduled →
      (due, .keepAliveWait n) ∈ t.dispatcher.scheduled ∨
      (due = e.1.now + keepAliveWaitingTime ∧
        probe n ∈ u.dispatcher.handed.drop t.dispatcher.handed.length) := by
  obtain ⟨env, event⟩ := e
  obtain ⟨-, -, -, heffect⟩ := Step.effect hs
  simp only at heffect ⊢
  generalize u.dispatcher = d at heffect
  have hcalm : ∀ {d₁ : ClientDispatcher}, Calm d₁ d → d₁.scheduled = t.dispatcher.scheduled →
      d₁.usbHubPtr.isSome = t.dispatcher.usbHubPtr.isSome →
      (d.scheduled ≠ [] → d.usbHubPtr.isSome = true) ∧ ∀ due n,
        (due, .keepAliveWait n) ∈ d.scheduled → (due, .keepAliveWait n) ∈ t.dispatcher.scheduled ∨
        (due = env.now + keepAliveWaitingTime ∧ probe n ∈ d.handed.drop t.dispatcher.handed.length) := by
    intro d₁ h hscheduled hsome
    rw [h.scheduled, h.hub, hscheduled, hsome]
    exact ⟨hhub, fun due n hmem => Or.inl hmem⟩
  cases heffect with
  | calm _ _ h => exact hcalm h rfl rfl
  | noted _ _ h _ => exact hcalm h rfl rfl
  | started _ hsome _ h =>
    refine ⟨fun _ => h.hub.trans hsome, fun due n hmem => ?_⟩
    rw [h.scheduled, startKeepAliveCheckCycle_eq, List.mem_append] at hmem
    rcases hmem with hold | hnew
    · exact Or.inl hold
    · simp [nextCheck] at hnew
  | idle _ _ => exact hcalm (.refl _) rfl rfl
  | @checked i ids d₁ hdue _ hprobed =>
    obtain ⟨-, due₀, hentry, -⟩ := State.due?_eq_some.mp hdue
    have hsome := hhub (List.ne_nil_of_mem (List.mem_of_getElem? hentry))
    refine ⟨fun _ => hprobed.hub.trans hsome, fun due n hmem => ?_⟩
    rw [startKeepAliveCheckCycle_eq, List.mem_append, hprobed.scheduled, List.mem_append] at hmem
    rcases hmem with (hold | hnew) | hnext
    · exact Or.inl hold
    · obtain ⟨id, hid, heq⟩ := List.mem_map.mp hnew
      obtain ⟨hdue, rfl⟩ : env.now + keepAliveWaitingTime = due ∧ id = n := by
        simpa [recheck] using heq
      obtain ⟨more, hmore, hsent⟩ := hprobed.sent hsome
      refine Or.inr ⟨hdue.symm, ?_⟩
      have hhanded : (d₁.startKeepAliveCheckCycle env).handed = t.dispatcher.handed ++ more := hmore
      rw [hhanded, List.drop_left]
      exact hsent id hid
    · simp [nextCheck] at hnext
  | waited _ _ h _ => exact hcalm h rfl rfl

theorem SentAt.of_step (run : Run (Step lib app) st fs t) (hs : Step lib app t e u)
    (h : probe n ∈ u.dispatcher.handed.drop t.dispatcher.handed.length) :
    SentAt lib app st n fs e := ⟨t, u, run, hs, h⟩

theorem Timed.step (h : Timed lib app st fs t) (run : Run (Step lib app) st fs t)
    (hs : Step lib app t e u) : Timed lib app st (fs ++ [e]) u := by
  obtain ⟨hclock, hclock', -, -⟩ := Step.effect hs
  obtain ⟨hhub, hprobes⟩ := schedules_step h.hub hs
  refine ⟨?_, ?_, ?_, hhub, ?_⟩
  · intro f hf
    rw [hclock']
    rcases List.mem_append.mp hf with hf | hf
    · exact (h.clock f hf).trans hclock
    · rw [List.mem_singleton.mp hf]
  · rw [List.pairwise_append]
    refine ⟨h.monotone, List.pairwise_singleton _ _, fun f hf f' hf' => ?_⟩
    rw [List.mem_singleton.mp hf']
    exact (h.clock f hf).trans hclock
  · intro n f hf hlives
    have hupdates := updates_step hs n
    by_cases he : Lives n e.2
    · rw [hupdates.lives he]
      rcases List.mem_append.mp hf with hf | hf
      · exact (h.clock f hf).trans hclock
      · rw [List.mem_singleton.mp hf]
    · rw [hupdates.keeps he]
      rcases List.mem_append.mp hf with hf | hf
      · exact h.last n f hf hlives
      · rw [List.mem_singleton.mp hf] at hlives
        exact absurd hlives he
  · intro due n hmem
    rcases hprobes due n hmem with hold | ⟨hdue, hsent⟩
    · obtain ⟨before, e', after, hfs, hsent, hdue⟩ := h.probes due n hold
      exact ⟨before, e', after ++ [e], by rw [hfs]; simp, hsent, hdue⟩
    · exact ⟨fs, e, [], rfl, .of_step run hs hsent, hdue⟩

theorem timed {name : Bytes} {port : UInt16} {connection_type : ConnectionType} {s : σ}
    (run : Run (Step lib app) (.initial name port connection_type s) fs t) :
    Timed lib app (.initial name port connection_type s) fs t := by
  refine Run.history_invariant_of_takes ?_ (fun fs t e u _ run hs h => h.step run hs)
    List.prefix_rfl run
  exact ⟨fun f hf => absurd hf List.not_mem_nil, List.Pairwise.nil,
    fun n f hf => absurd hf List.not_mem_nil, fun hne => absurd rfl hne,
    fun due n hmem => absurd hmem List.not_mem_nil⟩

theorem Timed.justified (h : Timed lib app st fs t) (hprompt : Prompt fs t env i)
    (hd : Disconnects t env i n) : Justified lib app st fs n env.now := by
  obtain ⟨-, due, hentry, hdue⟩ := State.due?_eq_some.mp hd.due
  have hsilent : ∀ f ∈ fs, Lives n f.2 → f.1.now + keepAliveTimeout < env.now := by
    intro f hf hlives
    have hlast := h.last n f hf hlives
    have htimed : (t.dispatcher.client n).lastKeepAliveResponse + keepAliveTimeout < env.now := by
      simpa [isTimedOut] using hd.timedOut
    omega
  obtain ⟨before, e, after, hfs, hsent, hprobe⟩ := h.probes due n (List.mem_of_getElem? hentry)
  refine ⟨⟨before, e, after, hfs, hsent, by omega, fun f hf hlives => ?_⟩, hsilent⟩
  -- what came since the probe is at least as late as the probe
  have hmem : f ∈ fs := by
    rw [hfs]
    exact List.mem_append_right _ (List.mem_cons_of_mem e hf)
  have horder : e.1.now ≤ f.1.now := by
    have hmonotone := h.monotone
    rw [hfs, List.pairwise_append, List.pairwise_cons] at hmonotone
    exact hmonotone.2.1.1 f hf
  have hold := hsilent f hmem hlives
  have htime := hprompt due n hentry f hmem hlives (by omega)
  omega

/-- In a run in which every re-check runs in time, every disconnect follows a probe that was
not answered. -/
theorem drops_justified (lib : Plist.Library) (app : Application σ) (name : Bytes) (port : UInt16)
    (connection_type : ConnectionType) (s : σ) (es : List (Env × Event))
    (hprompt : ∀ fs t env i, fs ++ [(env, .closure i)] <+: es →
      Run (Step lib app) (.initial name port connection_type s) fs t → Prompt fs t env i)
    (fs : List (Env × Event)) (t : State σ) (env : Env) (i : ℕ) (n : Bytes)
    (hfs : fs ++ [(env, .closure i)] <+: es)
    (run : Run (Step lib app) (.initial name port connection_type s) fs t)
    (hd : Disconnects t env i n) :
    Justified lib app (.initial name port connection_type s) fs n env.now :=
  (timed run).justified (hprompt fs t env i hfs run) hd

end

def connectedHub : USBHub :=
  (USBHub.initial 5000).setDevice 1
    { Connection.ofDevice ⟨1, 0, 0, 0, [], []⟩ 5000 with name := [65], status := .connected }

def neverAnswered : List (Env × Event) :=
  [(at' 0, .start), (at' 1, .hub connectedHub),
    (at' 2, .packet [65] PacketType.subscribeRequest.code 2 [1, 0]), (at' 2500, .closure 0)]

theorem drops_justified_neverAnswered : ∃ t : State Unit,
    Run (Step silentLibrary silentApp) (.initial [66] 5000 .usb ()) neverAnswered t ∧
      Disconnects t (at' 3600) 1 [65] ∧
      Justified silentLibrary silentApp (.initial [66] 5000 .usb ()) neverAnswered [65]
        (at' 3600).now := by
  have hend : ∃ t ∈ neverAnswered.foldlM (State.advance silentLibrary silentApp)
      (.initial [66] 5000 .usb ()), t.due? (at' 3600).now 1 = some (.keepAliveWait [65]) ∧
        t.dispatcher.keepAliveCheckRunning = true ∧
        t.dispatcher.isTimedOut (at' 3600) [65] = true := by
    decide +kernel
  obtain ⟨t, ht, hdue, hrunning, htimed⟩ := hend
  have run : Run (Step silentLibrary silentApp) (.initial [66] 5000 .usb ()) neverAnswered t :=
    Run.iff_foldlM.mpr ht
  have hdead : ∀ f ∈ neverAnswered, ∀ n, ¬ Lives n f.2 := by
    intro f hf n
    simp only [neverAnswered, List.mem_cons, List.not_mem_nil, or_false] at hf
    rcases hf with rfl | rfl | rfl | rfl
    · exact id
    · exact id
    · rintro ⟨-, kind, hkind, halive⟩
      have hkind := Option.some.inj ((PacketType.ofCode?_code .subscribeRequest).symm.trans hkind)
      subst hkind
      exact Bool.false_ne_true halive
    · exact id
  refine ⟨t, run, ⟨hdue, hrunning, htimed⟩,
    drops_justified silentLibrary silentApp [66] 5000 .usb ()
      (neverAnswered ++ [(at' 3600, .closure 1)]) ?_ neverAnswered t (at' 3600) 1 [65]
      List.prefix_rfl run ⟨hdue, hrunning, htimed⟩⟩
  intro fs t' env i hfs _ due n _ f hf hlives
  have hmem : f ∈ neverAnswered := by
    obtain ⟨rest, hrest⟩ := hfs
    rcases List.eq_nil_or_concat rest with rfl | ⟨rest, last, rfl⟩
    · rw [List.append_nil] at hrest
      exact (List.append_inj' hrest rfl).1 ▸ hf
    · rw [List.concat_eq_append, ← List.append_assoc] at hrest
      rw [← (List.append_inj' hrest rfl).1, List.append_assoc]
      exact List.mem_append_left _ hf
  exact absurd hlives (hdead f hmem n)

def probedOnce : List (Env × Event) :=
  [(at' 0, .start), (at' 1, .hub connectedHub),
    (at' 2, .packet [65] PacketType.connect.code 4 [65, 0, 0, 0]), (at' 2100, .closure 0)]

def answer : Env × Event := (at' 2200, .packet [65] PacketType.keepAliveResponse.code 0 [])

/-- The re-check is due at 3100 ms; run at 4300 ms it drops A all the same. -/
theorem responsive_client_dropped : ¬ ∀ (lib : Plist.Library) (app : Application Unit)
    (name : Bytes) (port : UInt16) (connection_type : ConnectionType) (fs : List (Env × Event))
    (t u : State Unit) (env : Env) (i : ℕ) (n : Bytes),
    Run (Step lib app) (.initial name port connection_type ()) fs t →
      Step lib app t (env, .closure i) u → Disconnects t env i n →
      Justified lib app (.initial name port connection_type ()) fs n env.now := by
  intro hall
  have hend : ∃ t ∈ (probedOnce ++ [answer]).foldlM (State.advance silentLibrary silentApp)
      (.initial [66] 5000 .usb ()),
      ∃ u ∈ t.advance silentLibrary silentApp (at' 4300, .closure 1),
        t.due? (at' 4300).now 1 = some (.keepAliveWait [65]) ∧
        t.dispatcher.keepAliveCheckRunning = true ∧
        t.dispatcher.isTimedOut (at' 4300) [65] = true := by
    decide +kernel
  have hquiet : ∀ t ∈ probedOnce.foldlM (State.advance silentLibrary silentApp)
      (.initial [66] 5000 .usb ()), ∀ u ∈ t.advance silentLibrary silentApp answer,
      probe [65] ∉ u.dispatcher.handed.drop t.dispatcher.handed.length := by
    decide +kernel
  obtain ⟨t, ht, u, hu, hdue, hrunning, htimed⟩ := hend
  obtain ⟨⟨before, e, after, hfs, ⟨t', u', run, hs, hsent⟩, -, hafter⟩, -⟩ :=
    hall silentLibrary silentApp [66] 5000 .usb _ t u (at' 4300) 1 [65] (Run.iff_foldlM.mpr ht) hu
      ⟨hdue, hrunning, htimed⟩
  rcases List.eq_nil_or_concat after with rfl | ⟨after, last, rfl⟩
  · -- the answer itself sends no probe
    obtain ⟨rfl, he⟩ := List.append_inj' hfs rfl
    obtain rfl := (List.cons.inj he).1
    exact hquiet t' (Run.iff_foldlM.mp run) u' hs hsent
  · -- the answer came since the probe
    rw [List.concat_eq_append, ← List.cons_append, ← List.append_assoc] at hfs
    have hlast := (List.cons.inj (List.append_inj' hfs rfl).2).1
    refine hafter last (by simp) ?_
    rw [← hlast]
    exact ⟨rfl, .keepAliveResponse, PacketType.ofCode?_code _, rfl⟩

end SwiftRobot.KeepAliveDrops
