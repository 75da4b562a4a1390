import SwiftRobot.DispatcherRuns
import Mathlib.Data.Finset.Card
import Mathlib.Data.Finset.Range

/-!
# The keep-alive cycle

Every start that gets past the join of its listening thread adds a cycle of its own, and
nothing ends one: the flag that the closures look at is set by each start and by each round,
and never cleared.
-/

namespace SwiftRobot.KeepAliveCycle
open ByteWords PacketHeaders ClientDispatcher DispatcherRuns

def stopped (es : List (Env × Event)) : Bool :=
  es.foldl (fun b e => match e.2 with
    | .start => false
    | .stop => true
    | _ => b) false

/-- A call of `start` that does not wait for a listening thread. -/
def starting {σ : Type} (st : State σ) : Event → Bool
  | .start => !st.dispatcher.listening
  | _ => false

def starts {σ : Type} (lib : Plist.Library) (app : Application σ) (st : State σ) :
    List (Env × Event) → ℕ
  | [] => 0
  | e :: es =>
    (starting st e.2).toNat + match st.advance lib app e with
      | none => 0
      | some t => starts lib app t es

section
variable {σ : Type} {es fs : List (Env × Event)} {e : Env × Event} {env : Env} {i n : ℕ}
  {lib : Plist.Library} {app : Application σ} {st t u : State σ}

def ChecksAt (st : State σ) (i : ℕ) : Prop :=
  st.dispatcher.scheduled[i]?.map Prod.snd = some .keepAliveCheck

instance (st : State σ) : DecidablePred (ChecksAt st) := fun _ =>
  inferInstanceAs (Decidable (_ = _))

def pending (st : State σ) : Finset ℕ :=
  (Finset.range st.dispatcher.scheduled.length).filter fun i => i ∉ st.ran ∧ ChecksAt st i

structure NoOp (t u : State σ) : Prop where
  hub : u.dispatcher.usbHubPtr = t.dispatcher.usbHubPtr
  scheduled : u.dispatcher.scheduled = t.dispatcher.scheduled

def Disconnected (d : ClientDispatcher) (clientid : Bytes) : Prop :=
  ∀ hub ∈ d.usbHubPtr, 0 ≤ hub.getDeviceIDForClientID clientid →
    ∀ c ∈ hub.devices.find? (hub.getDeviceIDForClientID clientid), c.status = .idle

theorem mem_pending : i ∈ pending st ↔ i ∉ st.ran ∧ ChecksAt st i := by
  rw [pending, Finset.mem_filter, Finset.mem_range, and_iff_right_iff_imp]
  rintro ⟨-, hchecks⟩
  by_contra hlen
  rw [ChecksAt, List.getElem?_eq_none (Nat.not_lt.mp hlen)] at hchecks
  contradiction

structure Cycling (n : ℕ) (st : State σ) : Prop where
  ran : ∀ i ∈ st.ran, i < st.dispatcher.scheduled.length
  running : st.dispatcher.scheduled ≠ [] → st.dispatcher.keepAliveCheckRunning = true
  usb : st.dispatcher.connection_type = .usb
  hub : st.dispatcher.usbHubPtr.isSome = true
  checks : (pending st).card = n

theorem checksAt_of_scheduled (h : t.dispatcher.scheduled = st.dispatcher.scheduled) :
    ChecksAt t i ↔ ChecksAt st i := by
  rw [ChecksAt, h, ChecksAt]

theorem pending_of_scheduled (h : t.dispatcher.scheduled = st.dispatcher.scheduled)
    (hran : ∀ i, ChecksAt st i → (i ∈ t.ran ↔ i ∈ st.ran)) : pending t = pending st := by
  ext i
  rw [mem_pending, mem_pending, checksAt_of_scheduled h]
  constructor
  · rintro ⟨hi, hchecks⟩
    exact ⟨fun hran' => hi ((hran i hchecks).mpr hran'), hchecks⟩
  · rintro ⟨hi, hchecks⟩
    exact ⟨fun hran' => hi ((hran i hchecks).mp hran'), hchecks⟩

theorem checksAt_append {more : List (ℕ × Task)} {due : ℕ}
    (h : t.dispatcher.scheduled = st.dispatcher.scheduled ++ more ++ [(due, .keepAliveCheck)])
    (hmore : ∀ entry ∈ more, entry.2 ≠ .keepAliveCheck) :
    ChecksAt t i ↔ ChecksAt st i ∨ i = st.dispatcher.scheduled.length + more.length := by
  rw [ChecksAt, ChecksAt, h]
  rcases Nat.lt_or_ge i st.dispatcher.scheduled.length with hlt | hge
  · rw [List.append_assoc, List.getElem?_append_left hlt]
    constructor
    · exact Or.inl
    · rintro (hchecks | rfl)
      · exact hchecks
      · omega
  · have hnone : st.dispatcher.scheduled[i]? = none := List.getElem?_eq_none hge
    rw [hnone, List.append_assoc, List.getElem?_append_right hge]
    obtain ⟨k, rfl⟩ := Nat.exists_eq_add_of_le hge
    rw [Nat.add_sub_cancel_left, Nat.add_left_cancel_iff]
    rcases Nat.lt_trichotomy k more.length with hlt | rfl | hgt
    · rw [List.getElem?_append_left hlt, List.getElem?_eq_getElem hlt]
      have hne := hmore _ (List.getElem_mem hlt)
      simp [hne, hlt.ne]
    · simp
    · rw [List.getElem?_eq_none (by simp; omega)]
      simp [hgt.ne']

theorem pending_append {more : List (ℕ × Task)} {due : ℕ}
    (h : t.dispatcher.scheduled = st.dispatcher.scheduled ++ more ++ [(due, .keepAliveCheck)])
    (hmore : ∀ entry ∈ more, entry.2 ≠ .keepAliveCheck)
    (hran : ∀ i ∈ t.ran, i < st.dispatcher.scheduled.length) (hkeep : ∀ i ∈ st.ran, i ∈ t.ran) :
    (pending t).card = ((pending st).filter (· ∉ t.ran)).card + 1 := by
  let last := st.dispatcher.scheduled.length + more.length
  have hlast : last ∉ t.ran := fun hl => by
    have hlt := hran last hl
    omega
  have hpending : pending t = insert last ((pending st).filter (· ∉ t.ran)) := by
    ext i
    rw [mem_pending, checksAt_append h hmore, Finset.mem_insert, Finset.mem_filter, mem_pending]
    constructor
    · rintro ⟨hi, hchecks | rfl⟩
      · exact Or.inr ⟨⟨fun hi' => hi (hkeep i hi'), hchecks⟩, hi⟩
      · exact Or.inl rfl
    · rintro (rfl | ⟨⟨-, hchecks⟩, hi⟩)
      · exact ⟨hlast, Or.inr rfl⟩
      · exact ⟨hi, Or.inl hchecks⟩
  have hnot : last ∉ (pending st).filter (· ∉ t.ran) := by
    intro hl
    have hmem := Finset.mem_filter.mp (Finset.mem_filter.mp hl).1
    have hlt := Finset.mem_range.mp hmem.1
    omega
  rw [hpending, Finset.card_insert_of_notMem hnot]

theorem starts_snoc (run : Run (Step lib app) st es t) :
    starts lib app st (es ++ [e]) = starts lib app st es + (starting t e.2).toNat := by
  induction es generalizing st with
  | nil =>
    obtain rfl := Run.nil_iff.mp run
    simp only [List.nil_append, starts]
    cases st.advance lib app e <;> simp
  | cons e₀ es ih =>
    obtain ⟨st₁, hs, run⟩ := Run.cons_iff.mp run
    have hs : st.advance lib app e₀ = some st₁ := hs
    simp only [List.cons_append, starts, hs, ih run, Nat.add_assoc]

theorem Cycling.quiet (h : Cycling n st) {d : ClientDispatcher} {ran : List ℕ}
    (hd : t.dispatcher = d) (hscheduled : d.scheduled = st.dispatcher.scheduled)
    (hrunning : d.keepAliveCheckRunning = st.dispatcher.keepAliveCheckRunning)
    (htype : d.connection_type = st.dispatcher.connection_type)
    (hhub : d.usbHubPtr.isSome = st.dispatcher.usbHubPtr.isSome)
    (hran : t.ran = st.ran ++ ran)
    (hnew : ∀ i ∈ ran, i < st.dispatcher.scheduled.length ∧ ¬ ChecksAt st i) : Cycling n t := by
  subst hd
  refine ⟨?_, ?_, htype.trans h.usb, hhub.trans h.hub, ?_⟩
  · intro i hi
    rw [hran, List.mem_append] at hi
    rw [hscheduled]
    rcases hi with hold | hi
    · exact h.ran i hold
    · exact (hnew i hi).1
  · rw [hscheduled, hrunning]
    exact h.running
  · rw [pending_of_scheduled hscheduled, h.checks]
    intro i hchecks
    rw [hran, List.mem_append, or_iff_left_iff_imp]
    intro hi
    exact absurd hchecks (hnew i hi).2

theorem not_check_of_recheck {env : Env} {ids : List Bytes} :
    ∀ entry ∈ ids.map (recheck env), entry.2 ≠ .keepAliveCheck := by
  intro entry hentry
  obtain ⟨id, -, rfl⟩ := List.mem_map.mp hentry
  exact fun h => by contradiction

theorem scheduled_of_due {env : Env} {task : Task} (h : st.due? env.now i = some task) :
    i ∉ st.ran ∧ i < st.dispatcher.scheduled.length ∧ (ChecksAt st i ↔ task = .keepAliveCheck) := by
  obtain ⟨hran, due, hentry, -⟩ := State.due?_eq_some.mp h
  refine ⟨hran, (List.getElem?_eq_some_iff.mp hentry).1, ?_⟩
  rw [ChecksAt, hentry, Option.map_some, Option.some.injEq]

theorem Cycling.start (h : Cycling n t)
    (hcalm : Calm (t.dispatcher.startKeepAliveCheckCycle env) u.dispatcher)
    (hran : u.ran = t.ran) : Cycling (n + 1) u := by
  have hscheduled := hcalm.scheduled
  rw [startKeepAliveCheckCycle_eq] at hscheduled
  refine ⟨?_, fun _ => hcalm.running, hcalm.connection_type.trans h.usb, hcalm.hub.trans h.hub, ?_⟩
  · intro i hi
    rw [hran] at hi
    rw [hscheduled, List.length_append]
    exact Nat.lt_add_right _ (h.ran i hi)
  · have hnext : u.dispatcher.scheduled = t.dispatcher.scheduled ++ [] ++ [nextCheck env] := by
      rw [List.append_nil]
      exact hscheduled
    have hcard := pending_append hnext (fun _ h => absurd h List.not_mem_nil)
      (by rw [hran]; exact h.ran) (by rw [hran]; exact fun _ => id)
    have hkept : (pending t).filter (· ∉ u.ran) = pending t := by
      apply Finset.filter_true_of_mem
      intro i hi
      rw [hran]
      exact (mem_pending.mp hi).1
    rw [hcard, hkept, h.checks]

theorem Cycling.check {ids : List Bytes} {d₁ : ClientDispatcher} (h : Cycling n t)
    (hdue : t.due? env.now i = some .keepAliveCheck) (hprobed : Probed env t.dispatcher ids d₁)
    (hd : u.dispatcher = d₁.startKeepAliveCheckCycle env) (hran : u.ran = t.ran ++ [i]) :
    Cycling n u := by
  obtain ⟨hnew, hlt, hchecks⟩ := scheduled_of_due hdue
  have hscheduled : u.dispatcher.scheduled =
      t.dispatcher.scheduled ++ ids.map (recheck env) ++ [nextCheck env] := by
    rw [hd, startKeepAliveCheckCycle_eq, hprobed.scheduled]
  have hbound : ∀ j ∈ u.ran, j < t.dispatcher.scheduled.length := by
    intro j hj
    rw [hran, List.mem_append, List.mem_singleton] at hj
    rcases hj with hold | rfl
    · exact h.ran j hold
    · exact hlt
  refine ⟨?_, fun _ => by rw [hd]; rfl, ?_, ?_, ?_⟩
  · intro j hj
    rw [hscheduled, List.length_append, List.length_append]
    exact Nat.lt_add_right _ (Nat.lt_add_right _ (hbound j hj))
  · rw [hd, startKeepAliveCheckCycle_eq]
    exact hprobed.connection_type.trans h.usb
  · rw [hd, startKeepAliveCheckCycle_eq]
    exact hprobed.hub.trans h.hub
  · have hcard := pending_append hscheduled not_check_of_recheck hbound
      (by rw [hran]; exact fun _ => List.mem_append_left _)
    have hmem : i ∈ pending t := mem_pending.mpr ⟨hnew, hchecks.mpr rfl⟩
    have hkept : (pending t).filter (· ∉ u.ran) = (pending t).erase i := by
      ext j
      rw [Finset.mem_filter, Finset.mem_erase, hran, List.mem_append, List.mem_singleton]
      constructor
      · rintro ⟨hj, hnot⟩
        exact ⟨fun hji => hnot (Or.inr hji), hj⟩
      · rintro ⟨hne, hj⟩
        exact ⟨hj, fun hj' => hj'.elim (mem_pending.mp hj).1 hne⟩
    have hpos := Finset.card_pos.mpr ⟨i, hmem⟩
    rw [hcard, hkept, Finset.card_erase_of_mem hmem, Nat.sub_add_cancel hpos, h.checks]

theorem Cycling.step (h : Cycling n t) (hs : Step lib app t e u) :
    Cycling (n + (starting t e.2).toNat) u := by
  obtain ⟨env, event⟩ := e
  obtain ⟨-, -, hran, heffect⟩ := Step.effect hs
  simp only at hran heffect
  generalize hd : u.dispatcher = d at heffect
  cases heffect with
  | @calm event d hplain hstart hcalm =>
    have hnone : event.ran = [] := by
      cases event <;> first | rfl | exact absurd hplain id
    have hnot : starting t event = false := by
      cases event with
      | start => rw [starting, hstart rfl h.usb h.hub, Bool.not_true]
      | _ => rfl
    rw [hnot]
    change Cycling n u
    refine h.quiet hd hcalm.scheduled hcalm.running hcalm.connection_type hcalm.hub hran ?_
    intro i hi
    rw [hnone] at hi
    exact absurd hi List.not_mem_nil
  | noted _ _ hcalm _ =>
    change Cycling n u
    exact h.quiet hd hcalm.scheduled hcalm.running hcalm.connection_type hcalm.hub hran
      fun _ hi => absurd hi List.not_mem_nil
  | started _ _ hfree hcalm =>
    rw [← hd] at hcalm
    rw [starting, hfree]
    exact h.start hcalm (hran.trans (List.append_nil _))
  | @idle i task hdue hrunning =>
    -- the flag is set while a closure is scheduled
    have hne := List.ne_nil_of_length_pos (Nat.zero_lt_of_lt (scheduled_of_due hdue).2.1)
    rw [h.running hne] at hrunning
    contradiction
  | checked hdue _ hprobed => exact h.check hdue hprobed hd hran
  | @waited i clientid d hdue _ hcalm _ =>
    obtain ⟨-, hlt, hchecks⟩ := scheduled_of_due hdue
    change Cycling n u
    refine h.quiet hd hcalm.scheduled hcalm.running hcalm.connection_type hcalm.hub hran ?_
    intro j hj
    rw [Event.ran, List.mem_singleton] at hj
    subst hj
    exact ⟨hlt, fun hc => by have htask := hchecks.mp hc; contradiction⟩

theorem cycling {name : Bytes} {port : UInt16} {s : σ}
    (run : Run (Step lib app) (.initial name port .usb s) fs t) :
    Cycling (starts lib app (.initial name port .usb s) fs) t := by
  induction run with
  | nil =>
    refine ⟨?_, ?_, rfl, rfl, rfl⟩
    · exact fun i hi => absurd hi List.not_mem_nil
    · exact fun hne => absurd rfl hne
  | snoc run hs ih =>
    rw [starts_snoc run]
    exact ih.step hs

theorem step_closure (hs : Step lib app t (env, .closure i) u) : ∃ task r,
    t.due? env.now i = some task ∧
      (t.dispatcher.runTask env app task t.app []).value = some r ∧ u.dispatcher = r.1 := by
  unfold Step State.advance at hs
  split_ifs at hs
  obtain ⟨r, hr, rfl⟩ := Option.map_eq_some_iff.mp hs
  obtain ⟨task, hdue, hr⟩ := Option.bind_eq_some_iff.mp hr
  exact ⟨task, r, hdue, hr, rfl⟩

/-- The property of a run: one check at most is pending, and behind a stop the closures that
still run do nothing. -/
structure Follows (lib : Plist.Library) (app : Application σ) (st : State σ)
    (es : List (Env × Event)) : Prop where
  single : ∀ fs t, fs <+: es → Run (Step lib app) st fs t → (pending t).card ≤ 1
  stops : ∀ fs t env i u, fs ++ [(env, .closure i)] <+: es → Run (Step lib app) st fs t →
    Step lib app t (env, .closure i) u → stopped fs = true → NoOp t u

end

/-- A second call waits for the listening thread of the first. -/
example : starts silentLibrary silentApp (.initial [66] 5000 .usb ())
    [(at' 0, .start), (at' 1, .start)] = 1 := by decide

end SwiftRobot.KeepAliveCycle
