import SwiftRobot.LocalDelivery
import SwiftRobot.Support.CallLog

/-!
# Serial and ordered delivery

The subscriber's semaphore keeps its closures one after the other, from the try of a
notify call to the release behind the callback. Its callback therefore runs on calls in
the order in which they took the semaphore, which is a part of the order in which they
tried it.
-/

namespace SwiftRobot.SerialDelivery
open LocalDelivery Messages

section
variable {ω : Type}

def log (st : State ω) : CallLog UInt8 where
  listeners := st.bus.subscribers.map fun sub => (sub.channel, sub.since)
  calls := st.bus.notified.map (·.1.toUInt8)
  offers := st.bus.offers.map fun o => (o.subscriber, o.call)
  pending k := (st.calls k).map (·.remaining)
  ended := st.ended
  endedBefore := st.endedBefore

theorem log_listener (st : State ω) (s : ℕ) (key : UInt8) (since : ℕ) :
    (log st).listeners[s]? = some (key, since) ↔
      ∃ sub, st.bus.subscribers[s]? = some sub ∧ sub.channel = key ∧ sub.since = since := by
  simp [log]

theorem log_congr {st u : State ω} (hbus : u.bus.subscribers = st.bus.subscribers)
    (hnotified : u.bus.notified = st.bus.notified) (hoffers : u.bus.offers = st.bus.offers)
    (hcalls : ∀ k, (u.calls k).map (·.remaining) = (st.calls k).map (·.remaining))
    (hended : u.ended = st.ended) (hbefore : u.endedBefore = st.endedBefore) :
    log u = log st := by
  simp only [log, hbus, hnotified, hoffers, hcalls, hended, hbefore]

variable [DecidableEq ω] {st u : State ω} {e : Event ω}

omit [DecidableEq ω] in
theorem pending_update (call : ℕ) (n : Option NotifyCall) (k : ℕ) :
    (Function.update st.calls call n k).map (·.remaining) =
      Function.update (log st).pending call (n.map (·.remaining)) k := by
  simp only [Function.update_apply]
  split_ifs <;> rfl

omit [DecidableEq ω] in
theorem log_offer {call s : ℕ} {n m : NotifyCall} (hcall : st.calls call = some n)
    (hrest : n.remaining = s :: m.remaining)
    (hcalls : u.calls = Function.update st.calls call (some m))
    (hbus : u.bus = st.bus.tryAcquire call s) (hended : u.ended = st.ended)
    (hbefore : u.endedBefore = st.endedBefore) : (log st).Step (log u) := by
  have hpending : (log st).pending call = some (s :: m.remaining) := by simp [log, hcall, hrest]
  have hlog : log u =
      { log st with
        offers := (log st).offers ++ [(s, call)]
        pending := Function.update (log st).pending call (some m.remaining) } := by
    simp only [log, hbus, hcalls, hended, hbefore, pending_update]
    simp [LocalBus.tryAcquire]
  rw [hlog]
  exact .offer hpending

theorem step_registered (hr : st.bus.Registered) (h : Step st e u) : u.bus.Registered := by
  cases h with
  | subscribe channel kind => exact hr.subscribe channel kind
  | begin channel msg => exact hr.congr rfl (st.bus.listed_begin channel msg)
  | _ => exact hr.congr rfl fun _ => rfl

theorem step_log (hr : st.bus.Registered) (h : Step st e u) :
    (log st).Step (log u) ∨ log u = log st := by
  cases h with
  | subscribe channel kind =>
    have hjoin := CallLog.Step.join (g := log st) channel
    exact Or.inl (by simpa [log, LocalBus.subscribe] using hjoin)
  | begin channel msg =>
    obtain ⟨hnodup, hlisted⟩ := hr channel.toUInt8
    have hbegin := CallLog.Step.begin (g := log st) channel.toUInt8 (st.bus.range channel) hnodup
      (fun s => by simp only [log_listener]; rw [LocalBus.range, hlisted]; simp)
    refine Or.inl ?_
    convert hbegin using 1
    simp only [log, State.setCall, pending_update]
    simp [LocalBus.begin]
  | acquire hcall _ hrest _ => exact Or.inl (log_offer hcall hrest rfl rfl rfl rfl)
  | refuse hcall _ hrest _ => exact Or.inl (log_offer hcall hrest rfl rfl rfl rfl)
  | @enqueue call n c hcall _ =>
    refine Or.inr (log_congr rfl rfl rfl (fun k => ?_) rfl rfl)
    simp only [State.setCall, Function.update_apply]
    split_ifs with hk
    · simp [hk, hcall]
    · rfl
  | @finish call n hcall _ hrest =>
    have hpending : (log st).pending call = some [] := by simp [log, hcall, hrest]
    have hfinish := CallLog.Step.finish hpending
    refine Or.inl ?_
    convert hfinish using 1
    simp only [log, State.setCall, pending_update]
    simp
  | _ => exact Or.inr rfl

def taken (st : State ω) : List Offer := st.bus.offers.filter (·.taken)

def takenBy (st : State ω) (s : ℕ) : List ℕ :=
  ((taken st).filter (·.subscriber = s)).map (·.call)

def ranBy (st : State ω) (s : ℕ) : List ℕ := (st.ran.filter (·.subscriber = s)).map (·.call)

omit [DecidableEq ω] in
theorem takenBy_snoc {o : Offer} (h : taken u = taken st ++ [o]) (s : ℕ) :
    takenBy u s = takenBy st s ++ if o.subscriber = s then [o.call] else [] := by
  simp only [takenBy, h, List.filter_append, List.map_append]
  by_cases hs : o.subscriber = s <;> simp [hs]

omit [DecidableEq ω] in
theorem ranBy_snoc {c : Closure} (h : u.ran = st.ran ++ [c]) (s : ℕ) :
    ranBy u s = ranBy st s ++ if c.subscriber = s then [c.call] else [] := by
  simp only [ranBy, h, List.filter_append, List.map_append]
  by_cases hs : c.subscriber = s <;> simp [hs]

theorem step_taken_ran (h : Step st e u) :
    (taken u = taken st ∧ u.ran = st.ran ∧ ∀ c, ¬ Acquires st e c) ∨
      (∃ c, taken u = taken st ++ [⟨c.subscriber, c.call, true⟩] ∧ u.ran = st.ran ∧
        st.bus.available c.subscriber = true ∧ ∀ d, Acquires st e d → d = c) ∨
      ∃ w c, st.workers w = .started c ∧ taken u = taken st ∧ u.ran = st.ran ++ [c] ∧
        ∀ p, u.waiting? p = if p = .running w then none else st.waiting? p := by
  cases h with
  | @acquire call s n rest hcall _ hrest havail =>
    refine Or.inr (Or.inl ⟨⟨s, n.channel, n.msg, call⟩, ?_, rfl, havail, ?_⟩)
    · simp [taken, LocalBus.tryAcquire, havail]
    · rintro ⟨s', channel, msg, call'⟩ ⟨n', rest', he, hcall', hrest', hchannel, hmsg, -⟩
      cases he
      have hn : n' = n := Option.some.inj (hcall'.symm.trans hcall)
      subst hn
      obtain rfl : s = s' := (List.cons.inj (hrest.symm.trans hrest')).1
      obtain rfl : channel = n'.channel := hchannel
      obtain rfl : msg = n'.msg := hmsg
      rfl
  | @refuse call s n rest hcall _ hrest havail =>
    refine Or.inl ⟨by simp [taken, LocalBus.tryAcquire, havail], rfl, ?_⟩
    rintro ⟨s', channel, msg, call'⟩ ⟨n', rest', he, hcall', hrest', -, -, havail'⟩
    cases he
    have hn : n' = n := Option.some.inj (hcall'.symm.trans hcall)
    subst hn
    have hs : s = s' := (List.cons.inj (hrest.symm.trans hrest')).1
    rw [← hs, havail] at havail'
    exact absurd havail' Bool.false_ne_true
  | @call w c hw _ =>
    have hlook : ∀ p, (st.setWorker w (.inCallback c)).waiting? p = _ :=
      look_of_setWorker rfl rfl rfl
    exact Or.inr (Or.inr ⟨w, c, hw, rfl, rfl, hlook⟩)
  | _ => exact Or.inl ⟨rfl, rfl, fun c hc => by obtain ⟨_, _, he, -⟩ := hc; cases he⟩

/-- The callbacks of a subscriber ran on calls in the order in which they took its
semaphore, and the call that waits for its callback took it last. -/
structure Ordered (st : State ω) : Prop where
  ran : ∀ s, (ranBy st s).Sublist (takenBy st s)
  waiting : ∀ p c, st.waiting? p = some c → ∃ earlier,
    takenBy st c.subscriber = earlier ++ [c.call] ∧ (ranBy st c.subscriber).Sublist earlier

theorem Ordered.step (ho : Ordered st) (ht : Tidy st)
    (hs : (st.ledger Worker.unreleased?).Serial Closure.subscriber) (h : Step st e u) :
    Ordered u := by
  have hsource : ∀ p c, u.waiting? p = some c →
      (∃ q, st.waiting? q = some c) ∨ Acquires st e c :=
    fun p c hp => step_source view_waiting ht h hp
  rcases step_taken_ran h with ⟨htaken, hran, hno⟩ | ⟨c, htaken, hran, havail, honly⟩ |
    ⟨w, c, hw, htaken, hran, hlook⟩
  · have hsame : ∀ s, takenBy u s = takenBy st s ∧ ranBy u s = ranBy st s := by
      intro s
      simp [takenBy, ranBy, htaken, hran]
    constructor
    · intro s
      rw [(hsame s).1, (hsame s).2]
      exact ho.ran s
    · intro p d hp
      rcases hsource p d hp with ⟨q, hq⟩ | hd
      · rw [(hsame _).1, (hsame _).2]
        exact ho.waiting q d hq
      · exact absurd hd (hno d)
  · have hran' : ∀ s, ranBy u s = ranBy st s := fun s => by rw [ranBy, hran, ranBy]
    constructor
    · intro s
      rw [hran', takenBy_snoc htaken]
      exact (ho.ran s).trans (List.sublist_append_left _ _)
    · intro p d hp
      rw [hran', takenBy_snoc htaken]
      rcases hsource p d hp with ⟨q, hq⟩ | hd
      · -- a closure that waits has its semaphore, so the step took another one
        have hne : c.subscriber ≠ d.subscriber := by
          intro heq
          have hheld := hs.taken q d (at?_of_waiting? hq)
          rw [← heq] at hheld
          exact absurd (havail.symm.trans hheld) (by simp)
        simpa [hne] using ho.waiting q d hq
      · rw [honly d hd]
        exact ⟨takenBy st c.subscriber, by simp, ho.ran _⟩
  · have htaken' : ∀ s, takenBy u s = takenBy st s := fun s => by rw [takenBy, htaken, takenBy]
    have hwait : st.waiting? (.running w) = some c := by simp [State.look, hw, Worker.waiting?]
    constructor
    · intro s
      rw [htaken', ranBy_snoc hran]
      split_ifs with hcs
      · subst hcs
        obtain ⟨earlier, hall, hearlier⟩ := ho.waiting _ c hwait
        rw [hall]
        exact hearlier.append (List.Sublist.refl _)
      · simpa using ho.ran s
    · intro p d hp
      rw [hlook] at hp
      split_ifs at hp with hpw
      have hne : c.subscriber ≠ d.subscriber := by
        intro heq
        exact hpw (hs.unique p _ d c (at?_of_waiting? hp) (at?_of_waiting? hwait) heq.symm)
      rw [htaken', ranBy_snoc hran]
      simpa [hne] using ho.waiting p d hp

def message? (st : State ω) (call : ℕ) : Option Msg := st.bus.notified[call]?.map (·.2)

structure Recorded (st : State ω) : Prop where
  closures : ∀ p c, st.at? p = some c → message? st c.call = some c.msg
  ran : ∀ c ∈ st.ran, message? st c.call = some c.msg

theorem step_notified (h : Step st e u) : st.bus.notified <+: u.bus.notified := by
  cases h with
  | begin channel msg => exact List.prefix_append _ _
  | _ => exact List.prefix_rfl

theorem Recorded.step (hr : Recorded st) (ht : Tidy st) (h : Step st e u) : Recorded u := by
  have hkeep : ∀ call msg, message? st call = some msg → message? u call = some msg := by
    intro call msg hm
    obtain ⟨n, hn, hmsg⟩ := Option.map_eq_some_iff.mp hm
    rw [message?, CallLog.getElem?_of_prefix (step_notified h) hn, Option.map_some, hmsg]
  constructor
  · intro p c hp
    rcases step_source view_unreleased ht h hp with ⟨q, hq⟩ | ⟨n, rest, -, hcall, -, -, hmsg, -⟩
    · exact hkeep _ _ (hr.closures q c hq)
    · refine hkeep _ _ ?_
      rw [message?, ht.numbered _ n hcall, Option.map_some, hmsg]
  · intro c hc
    refine hkeep _ _ ?_
    rcases step_taken_ran h with ⟨-, hran, -⟩ | ⟨d, -, hran, -⟩ | ⟨w, d, hw, -, hran, -⟩
    · exact hr.ran c (hran ▸ hc)
    · exact hr.ran c (hran ▸ hc)
    · rw [hran, List.mem_append, List.mem_singleton] at hc
      rcases hc with hc | rfl
      · exact hr.ran c hc
      · exact hr.closures (.running w) c (by simp [State.look, hw, Worker.unreleased?])

structure Kept (st : State ω) : Prop where
  tidy : Tidy st
  serial : (st.ledger Worker.unreleased?).Serial Closure.subscriber
  registered : st.bus.Registered
  sound : (log st).Sound
  ordered : Ordered st
  recorded : Recorded st

theorem Kept.step (hk : Kept st) (h : Step st e u) : Kept u where
  tidy := hk.tidy.step h
  serial := serial_step hk.tidy hk.serial h
  registered := step_registered hk.registered h
  sound := by
    rcases step_log hk.registered h with hl | hl
    · exact hk.sound.step hl
    · rw [hl]
      exact hk.sound
  ordered := hk.ordered.step hk.tidy hk.serial h
  recorded := hk.recorded.step hk.tidy h

omit [DecidableEq ω] in
theorem kept_initial : Kept (State.initial : State ω) where
  tidy := tidy_initial
  serial := serial_initial
  registered := LocalBus.registered_initial
  sound := CallLog.sound_empty
  ordered := by
    refine ⟨fun s => List.nil_sublist _, fun p c hp => ?_⟩
    exact absurd ((at?_initial p).symm.trans (at?_of_waiting? hp)) (by simp)
  recorded := by
    refine ⟨fun p c hp => absurd ((at?_initial p).symm.trans hp) (by simp), ?_⟩
    simp [State.initial]

/-- `order` goes through `calls`, each once and with respect to real time, and the
callback of `s` ran on some of them in this order, with their messages. -/
structure Follows (st : State ω) (s : ℕ) (calls : ℕ → Prop) (order : List ℕ) : Prop where
  once : order.Nodup
  all : ∀ k, k ∈ order ↔ calls k
  realTime : order.Pairwise fun j k => k ∉ st.endedBefore j
  delivered : ((st.ran.filter (·.subscriber = s)).map fun c => (c.call, some c.msg)).Sublist
    (order.map fun k => (k, message? st k))

omit [DecidableEq ω] in
theorem takenBy_sublist (st : State ω) (s : ℕ) : (takenBy st s).Sublist ((log st).offered s) := by
  simp only [takenBy, taken, CallLog.offered, log, List.filter_map, List.map_map]
  exact (List.filter_sublist.filter _).map _

omit [DecidableEq ω] in
theorem Kept.follows (hk : Kept st) (s : ℕ) :
    ∃ order, Follows st s ((log st).Hears s) order := by
  obtain ⟨later, hnodup, hall, hreal⟩ := hk.sound.order s
  refine ⟨(log st).offered s ++ later, hnodup, hall, hreal, ?_⟩
  have hmsg : (st.ran.filter (·.subscriber = s)).map (fun c => (c.call, some c.msg)) =
      (ranBy st s).map fun k => (k, message? st k) := by
    rw [ranBy, List.map_map]
    refine List.map_congr_left fun c hc => ?_
    rw [Function.comp_apply, hk.recorded.ran c (List.mem_filter.mp hc).1]
  have hsub : (ranBy st s).Sublist ((log st).offered s ++ later) :=
    ((hk.ordered.ran s).trans (takenBy_sublist st s)).trans (List.sublist_append_left _ _)
  rw [hmsg]
  exact hsub.map _

def OneUnderWay (st : State ω) (s : ℕ) : Prop :=
  ∀ p q c d, st.at? p = some c → st.at? q = some d → c.subscriber = s → d.subscriber = s → p = q

def NeverOverlaps (st : State ω) (s : ℕ) : Prop :=
  ∀ w w' c d, st.workers w = .inCallback c → st.workers w' = .inCallback d →
    c.subscriber = s → d.subscriber = s → w = w'

omit [DecidableEq ω] in
theorem Kept.serially (hk : Kept st) (s : ℕ) : OneUnderWay st s ∧ NeverOverlaps st s := by
  have hone : OneUnderWay st s := fun p q c d hp hq hc hd =>
    hk.serial.unique p q c d hp hq (hc.trans hd.symm)
  refine ⟨hone, fun w w' c d hw hw' hc hd => ?_⟩
  have h := hone (.running w) (.running w') c d (by simp [State.look, hw, Worker.unreleased?])
    (by simp [State.look, hw', Worker.unreleased?]) hc hd
  exact Place.running.inj h

theorem run_kept {es : List (Event ω)} (run : Run Step .initial es st) : Kept st :=
  run.invariant (I := Kept) (fun _ _ _ hk h => hk.step h) kept_initial

def Hears (st : State ω) (s k : ℕ) : Prop :=
  ∃ sub n, st.bus.subscribers[s]? = some sub ∧ st.bus.notified[k]? = some n ∧
    n.1 = sub.channel.toUInt16 ∧ sub.since ≤ k

/-- A call that begins on a channel above 255 finds no subscriber under its key. -/
def Unaliased (st : State ω) (e : Event ω) : Prop :=
  ∀ channel msg, e = .begin channel msg → channel.toNat < 256 ∨ st.bus.range channel = []

def Plain (st : State ω) : Prop :=
  ∀ s k n, (log st).Hears s k → st.bus.notified[k]? = some n → n.1.toNat < 256

theorem Plain.step (hp : Plain st) (hk : Kept st) (hun : Unaliased st e) (h : Step st e u) :
    Plain u := by
  cases h with
  | subscribe channel kind =>
    intro s k n hh hn
    have hback : (log st).Hears s k := by
      apply CallLog.hears_of_join
      simpa [log, LocalBus.subscribe] using hh
    exact hp s k n hback hn
  | begin channel msg =>
    intro s k n hh hn
    rcases CallLog.hears_of_begin hh (g := log st) rfl List.map_append with
      hback | ⟨rfl, since, hs⟩
    · have hlt : k < st.bus.notified.length := by simpa [log] using hback.lt
      simp only [LocalBus.begin, List.getElem?_append_left hlt] at hn
      exact hp s k n hback hn
    · have hn : n = (channel, msg) := by simpa [log, LocalBus.begin, eq_comm] using hn
      obtain ⟨sub, hsub, hkey, -⟩ := (log_listener st s _ since).mp hs
      have hmem : s ∈ st.bus.range channel :=
        ((hk.registered channel.toUInt8).2 s).mpr ⟨sub, hsub, hkey⟩
      rcases hun channel msg rfl with hlt | hnil
      · rw [hn]
        exact hlt
      · rw [hnil] at hmem
        exact absurd hmem List.not_mem_nil
  | _ => exact hp

omit [DecidableEq ω] in
theorem Plain.hears (hp : Plain st) (s k : ℕ) : (log st).Hears s k ↔ Hears st s k := by
  constructor
  · intro hh
    obtain ⟨key, since, hs, hk, hle⟩ := id hh
    obtain ⟨sub, hsub, rfl, rfl⟩ := (log_listener st s key since).mp hs
    simp only [log, List.getElem?_map, Option.map_eq_some_iff] at hk
    obtain ⟨n, hn, hkey⟩ := hk
    have hlt := hp s k n hh hn
    refine ⟨sub, n, hsub, hn, ?_, hle⟩
    rw [← hkey, ← UInt16.toNat_inj]
    simp
    omega
  · rintro ⟨sub, n, hsub, hn, hchannel, hle⟩
    refine ⟨sub.channel, sub.since, (log_listener st s _ _).mpr ⟨sub, hsub, rfl, rfl⟩, ?_, hle⟩
    simp [log, hn, hchannel]

/-- As long as no call begins on a channel that is another one in eight bits, closures
are serial and the callback runs on calls to the subscriber's own channel, in order. -/
theorem delivery_serial_ordered {es : List (Event ω)}
    (run : Run (fun st e u => Step st e u ∧ Unaliased st e) .initial es st) (s : ℕ) :
    OneUnderWay st s ∧ NeverOverlaps st s ∧ ∃ order, Follows st s (Hears st s) order := by
  have hplain : Kept st ∧ Plain st := by
    refine run.invariant (I := fun st => Kept st ∧ Plain st)
      (fun t e u hi h => ⟨hi.1.step h.1, hi.2.step hi.1 h.2 h.1⟩) ⟨kept_initial, ?_⟩
    intro s k n _ hn
    simp [State.initial, LocalBus.initial] at hn
  obtain ⟨hk, hp⟩ := hplain
  obtain ⟨order, ho⟩ := hk.follows s
  exact ⟨(hk.serially s).1, (hk.serially s).2, order, ho.once,
    fun k => (ho.all k).trans (hp.hears s k), ho.realTime, ho.delivered⟩

end

def heard (channel : UInt16) : List (Event (Fin 6)) :=
  [.subscribe 1 .uint8Array, .begin channel (.uint8Array ⟨1, [7]⟩), .offer 0, .enqueue 0,
    .take 0 0, .cast 0]

theorem delivery_serial_ordered_heard : ∃ st : State (Fin 6),
    Run (fun st e u => Step st e u ∧ Unaliased st e) .initial (heard 1) st ∧ st.ran.length = 1 ∧
      OneUnderWay st 0 ∧ NeverOverlaps st 0 ∧ ∃ order, Follows st 0 (Hears st 0) order := by
  have hend : ∃ st ∈ (heard 1).foldlM State.advance .initial, st.ran.length = 1 := by
    decide +kernel
  obtain ⟨st, hst, hran⟩ := hend
  have hlow : ∀ e ∈ heard 1, ∀ channel msg, e = .begin channel msg → channel.toNat < 256 := by
    simp [heard]
  have run : Run (fun st e u => Step st e u ∧ Unaliased st e) .initial (heard 1) st :=
    ((run_of_foldlM hst).restrict hlow).mono fun _ _ _ h =>
      ⟨h.1, fun channel msg he => Or.inl (h.2 channel msg he)⟩
  exact ⟨st, run, hran, delivery_serial_ordered run 0⟩

/-- A call on channel 257 is delivered to the subscriber of channel 1. -/
theorem aliased_call_delivered : ¬ ∀ (es : List (Event (Fin 6))) (st : State (Fin 6)),
    Run Step .initial es st → ∀ s,
      OneUnderWay st s ∧ NeverOverlaps st s ∧ ∃ order, Follows st s (Hears st s) order := by
  intro hall
  have hend : ∃ st ∈ (heard 257).foldlM State.advance .initial,
      st.ran.map (·.subscriber) = [0] ∧ st.bus.subscribers.map (·.channel) = [1] ∧
        st.bus.notified.map (·.1) = [257] := by
    decide +kernel
  obtain ⟨st, hst, hran, hsubs, hnotified⟩ := hend
  obtain ⟨-, -, order, ho⟩ := hall _ st (run_of_foldlM hst) 0
  have hempty : order = [] := by
    refine List.eq_nil_iff_forall_not_mem.mpr fun k hk => ?_
    obtain ⟨sub, n, hsub, hn, hchannel, -⟩ := (ho.all k).mp hk
    have hsub' : sub.channel ∈ st.bus.subscribers.map (·.channel) :=
      List.mem_map_of_mem (List.mem_of_getElem? hsub)
    have hn' : n.1 ∈ st.bus.notified.map (·.1) := List.mem_map_of_mem (List.mem_of_getElem? hn)
    rw [hsubs, List.mem_singleton] at hsub'
    rw [hnotified, List.mem_singleton, hchannel, hsub'] at hn'
    exact absurd hn' (by decide)
  have hdelivered := ho.delivered.length_le
  obtain ⟨c, hc, hcs⟩ := List.map_eq_singleton_iff.mp hran
  simp [hempty, hc, hcs] at hdelivered

end SwiftRobot.SerialDelivery
