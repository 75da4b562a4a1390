import SwiftRobot.SerialDelivery

/-!
# Subscribers that fall silent

A semaphore comes back behind the callback. When the message is of another type than the
callback takes, the cast throws and the catch block leaves the semaphore taken: from
then on every notify call passes the subscriber over.
-/

namespace SwiftRobot.SemaphoreLeak
open LocalDelivery SerialDelivery Messages

def closure? : Worker → Option Closure
  | .started c | .inCallback c | .returned c | .released c | .caught c => some c
  | _ => none

section
variable {ω : Type} {st u v : State ω} {e : Event ω}

def Matched (st : State ω) (c : Closure) : Prop := st.kind? c.subscriber = some c.msg.kind

def EndsMatched (st : State ω) (e : Event ω) : Prop :=
  ∀ w c, e = .leave w → closure? (st.workers w) = some c → Matched st c

/-- No closure that has yet to release the subscriber's semaphore is in the hand of a
notify call, in the queue or at a worker. -/
def Idle (st : State ω) (s : ℕ) : Prop := ∀ p c, st.at? p = some c → c.subscriber ≠ s

variable [DecidableEq ω]

/-- The semaphore is available, and the next message that a call has for the subscriber
takes it: if it is of the subscriber's type, nothing but its callback ends its wait. -/
structure Responsive (st : State ω) (s : ℕ) : Prop where
  available : st.bus.available s = true
  offered : ∀ call n rest, st.calls call = some n → n.holding = none → n.remaining = s :: rest →
    ∃ u, Step st (.offer call) u
  delivered : ∀ call n rest, st.calls call = some n → n.remaining = s :: rest →
    st.kind? s = some n.msg.kind → ∀ u, Step st (.offer call) u → ∀ fs v, Run Step u fs v →
      (∃ p, v.waiting? p = some ⟨s, n.channel, n.msg, call⟩) ∨ ⟨s, n.channel, n.msg, call⟩ ∈ v.ran

theorem step_kind {s : ℕ} {kind : MsgKind} (h : Step st e u) (hs : st.kind? s = some kind) :
    u.kind? s = some kind := by
  cases h with
  | subscribe channel kind' =>
    obtain ⟨sub, hsub, hkind⟩ := Option.map_eq_some_iff.mp hs
    have hsub' := CallLog.getElem?_of_prefix
      (List.prefix_append st.bus.subscribers [⟨kind', channel, st.bus.notified.length⟩]) hsub
    simp [State.kind?, LocalBus.subscribe, hsub', hkind]
  | _ => exact hs

def Worker.Typed (st : State ω) : Worker → Prop
  | .inCallback c | .returned c | .released c => Matched st c
  | .caught c => ¬ Matched st c
  | _ => True

structure Typed (st : State ω) : Prop where
  registered : ∀ p c, st.at? p = some c → (st.kind? c.subscriber).isSome
  workers : ∀ w, Worker.Typed st (st.workers w)

theorem Typed.step (hty : Typed st) (hk : Kept st) (h : Step st e u) : Typed u := by
  have hregistered : ∀ s, (st.kind? s).isSome → (u.kind? s).isSome := by
    intro s hs
    obtain ⟨kind, hkind⟩ := Option.isSome_iff_exists.mp hs
    rw [step_kind h hkind, Option.isSome_some]
  have hkeep : ∀ w, Worker.Typed u (st.workers w) := by
    intro w
    have hw := hty.workers w
    cases hphase : st.workers w with
    | inCallback c | returned c | released c =>
      rw [hphase] at hw
      exact step_kind h hw
    | caught c =>
      rw [hphase] at hw
      have hreg := hty.registered (.running w) c (by simp [State.look, hphase, Worker.unreleased?])
      obtain ⟨kind, hkind⟩ := Option.isSome_iff_exists.mp hreg
      simp only [Worker.Typed, Matched, hkind, step_kind h hkind] at hw ⊢
      exact hw
    | idle | started | timer => trivial
  have hset : ∀ {w phase}, u.workers = Function.update st.workers w phase →
      Worker.Typed u phase → ∀ w', Worker.Typed u (u.workers w') := by
    intro w phase hworkers hphase w'
    rw [hworkers, Function.update_apply]
    split_ifs
    · exact hphase
    · exact hkeep w'
  have hold : ∀ {w phase}, st.workers w = phase → Worker.Typed u phase := by
    intro w phase hw
    exact hw ▸ hkeep w
  constructor
  · intro p c hp
    refine hregistered _ ?_
    rcases step_source view_unreleased hk.tidy h hp with
      ⟨q, hq⟩ | ⟨n, rest, -, hcall, hrest, -⟩
    · exact hty.registered q c hq
    · have ha := hk.sound.awaits c.call (c.subscriber :: rest) (by simp [log, hcall, hrest])
      obtain ⟨key, since, hs, -⟩ := ha.hears _ List.mem_cons_self
      obtain ⟨sub, hsub, -⟩ := (log_listener st _ key since).mp hs
      simp [State.kind?, hsub]
  · cases h with
    | @take w now item q hw _ => exact hset rfl (by cases item <;> trivial)
    | call hw hkind => exact hset rfl hkind
    | mismatch hw hkind => exact hset rfl hkind
    | @callbackReturns w c hw =>
      have hc : Matched _ c := hold hw
      exact hset rfl hc
    | @release w c hw =>
      have hc : Matched _ c := hold hw
      exact hset rfl hc
    | leave hw => exact hset rfl trivial
    | timerEnds hw => exact hset rfl trivial
    | _ => exact hkeep

omit [DecidableEq ω] in
theorem typed_initial : Typed (State.initial : State ω) :=
  ⟨fun p c hp => absurd ((at?_initial p).symm.trans hp) (by simp), fun _ => trivial⟩

theorem step_waiting (ht : Tidy st) (hs : (st.ledger Worker.unreleased?).Serial Closure.subscriber)
    (h : Step st e u) {p : Place ω} {c : Closure} (hp : st.waiting? p = some c) :
    (∃ q, u.waiting? q = some c) ∨ ∃ w, e = .cast w ∧ st.workers w = .started c := by
  have htaken : st.bus.available c.subscriber = false := hs.taken p c (at?_of_waiting? hp)
  have hkept : Ledger.Change Closure.subscriber (st.ledger Worker.waiting?)
      (u.ledger Worker.waiting?) → u.bus.available c.subscriber = false →
      ∃ q, u.waiting? q = some c := fun hc hfree => hc.kept hp hfree
  have hother : ∀ {w phase}, u.workers = Function.update st.workers w phase →
      u.bus.queue.q_ = st.bus.queue.q_ → u.calls = st.calls → p ≠ .running w →
      ∃ q, u.waiting? q = some c := by
    intro w phase hworkers hq hc hpw
    exact ⟨p, ((look_of_setWorker hworkers hq hc p).trans (if_neg hpw)).trans hp⟩
  have hpast : ∀ {w}, Worker.waiting? (st.workers w) = none → p ≠ .running w := by
    rintro w hnone rfl
    exact absurd (hnone.symm.trans hp) (by simp)
  cases h with
  | subscribe channel kind => exact Or.inl ⟨p, by cases p <;> exact hp⟩
  | begin channel msg =>
    exact Or.inl (hkept (change_of_empty (by simp [State.look, ht.fresh]) rfl rfl rfl rfl rfl) htaken)
  | @acquire call s n rest hcall hnone hrest havail =>
    have hne : c.subscriber ≠ s := by
      rintro rfl
      exact absurd (htaken.symm.trans havail) Bool.false_ne_true
    refine Or.inl (hkept (change_of_acquire (c := ⟨s, n.channel, n.msg, call⟩) hcall hnone rfl
      havail rfl rfl rfl) ?_)
    simp only [LocalBus.tryAcquire, Function.update_of_ne hne, htaken]
  | @refuse call s n rest hcall hnone _ havail =>
    have hfree : Function.update st.bus.available s false = st.bus.available := by
      rw [← havail, Function.update_eq_self]
    exact Or.inl (hkept (change_of_empty (by simp [State.look, hcall, hnone]) (by exact hnone)
      rfl rfl rfl hfree) ((congrFun hfree _).trans htaken))
  | enqueue hcall hheld =>
    exact Or.inl (hkept (change_of_enqueue hcall hheld rfl rfl rfl rfl) htaken)
  | finish hcall hnone _ =>
    exact Or.inl (hkept (change_of_empty (by simp [State.look, hcall, hnone]) rfl rfl rfl rfl rfl)
      htaken)
  | schedule time_point task => exact Or.inl ⟨p, by cases p <;> exact hp⟩
  | quit => exact Or.inl ⟨p, by cases p <;> exact hp⟩
  | take hidle htakes =>
    exact Or.inl (hkept (change_of_take view_waiting ht hidle htakes rfl rfl rfl) htaken)
  | @call w d hw _ | @mismatch w d hw _ =>
    by_cases hpw : p = .running w
    · subst hpw
      simp only [State.look, hw, Worker.waiting?, Option.some.injEq] at hp
      exact Or.inr ⟨w, rfl, hp ▸ hw⟩
    · exact Or.inl (hother rfl rfl rfl hpw)
  | callbackReturns hw => exact Or.inl (hother rfl rfl rfl (hpast (by rw [hw]; rfl)))
  | release hw => exact Or.inl (hother rfl rfl rfl (hpast (by rw [hw]; rfl)))
  | leave hw =>
    exact Or.inl (hother rfl rfl rfl (hpast (by rcases hw with hw | hw <;> rw [hw] <;> rfl)))
  | timerEnds hw => exact Or.inl (hother rfl rfl rfl (hpast (by rw [hw]; rfl)))

theorem run_waiting {c : Closure} {fs : List (Event ω)} (hk : Kept u) (hc : Matched u c)
    (hwait : ∃ p, u.waiting? p = some c) (run : Run Step u fs v) :
    (∃ p, v.waiting? p = some c) ∨ c ∈ v.ran := by
  have hinv : Kept v ∧ Matched v c ∧ ((∃ p, v.waiting? p = some c) ∨ c ∈ v.ran) := by
    refine run.invariant
      (I := fun v => Kept v ∧ Matched v c ∧ ((∃ p, v.waiting? p = some c) ∨ c ∈ v.ran))
      (fun st e u hi h => ?_) ⟨hk, hc, Or.inl hwait⟩
    obtain ⟨hk, hc, hd⟩ := hi
    refine ⟨hk.step h, step_kind h hc, ?_⟩
    rcases hd with ⟨p, hp⟩ | hran
    · rcases step_waiting hk.tidy hk.serial h hp with hq | ⟨w, rfl, hw⟩
      · exact Or.inl hq
      · cases h with
        | @call _ d hw' _ =>
          have hcd : c = d := Worker.started.inj (hw.symm.trans hw')
          exact Or.inr (by simp [hcd])
        | @mismatch _ d hw' hne =>
          have hcd : c = d := Worker.started.inj (hw.symm.trans hw')
          exact absurd hc (hcd ▸ hne)
    · right
      rcases step_taken_ran h with ⟨-, hsame, -⟩ | ⟨d, -, hsame, -⟩ | ⟨w, d, -, -, hsame, -⟩
      · rwa [hsame]
      · rwa [hsame]
      · rw [hsame]
        exact List.mem_append_left _ hran
  exact hinv.2.2

/-- After the end of a closure in its catch block the subscriber's semaphore never
becomes available again, and no closure is ever under way for it. -/
theorem silenced_for_good {w : ω} {c : Closure} {fs : List (Event ω)} (hk : Kept st)
    (hw : st.workers w = .caught c) (h : Step st (.leave w) u) (run : Run Step u fs v) :
    (v.ledger Worker.unreleased?).Gone Closure.subscriber c.subscriber := by
  have hu : u = st.setWorker w .idle := by cases h <;> rfl
  subst hu
  have hinv : Kept v ∧ (v.ledger Worker.unreleased?).Gone Closure.subscriber c.subscriber := by
    refine run.invariant
      (I := fun v => Kept v ∧ (v.ledger Worker.unreleased?).Gone Closure.subscriber c.subscriber)
      (fun t e u hi h => ⟨hi.1.step h, ?_⟩) ⟨hk.step h, hk.serial.leaked (leak_of_caught hw)⟩
    rcases step_ledger hi.1.tidy h with hc | ⟨w', d, -, -, hl⟩
    · exact hi.2.change hc
    · exact hi.2.leak hl
  exact hinv.2

structure Sustained (st : State ω) : Prop where
  kept : Kept st
  typed : Typed st
  conserved : (st.ledger Worker.unreleased?).Conserved Closure.subscriber

omit [DecidableEq ω] in
theorem sustained_initial : Sustained (State.initial : State ω) :=
  ⟨kept_initial, typed_initial, fun _ h => absurd h (by simp [State.ledger, State.initial, LocalBus.initial])⟩

theorem Sustained.step (hs : Sustained st) (he : EndsMatched st e) (h : Step st e u) :
    Sustained u := by
  refine ⟨hs.kept.step h, hs.typed.step hs.kept h, ?_⟩
  rcases step_ledger hs.kept.tidy h with hc | ⟨w, c, rfl, hw, -⟩
  · exact hs.conserved.change hc
  · have hty := hs.typed.workers w
    rw [hw] at hty
    exact absurd (he w c rfl (by rw [hw]; rfl)) hty

theorem Sustained.responsive (hs : Sustained st) {s : ℕ} (hidle : Idle st s) :
    Responsive st s := by
  have havail : st.bus.available s = true := by
    by_contra hne
    obtain ⟨p, c, hp, hc⟩ := hs.conserved s (Bool.eq_false_iff.mpr hne)
    exact hidle p c hp hc
  refine ⟨havail, fun call n rest hcall hnone hrest => ⟨_, .acquire hcall hnone hrest havail⟩, ?_⟩
  intro call n rest hcall hrest hkind u h fs v run
  have hk := hs.kept.step h
  have hc : Matched u ⟨s, n.channel, n.msg, call⟩ := step_kind h hkind
  refine run_waiting hk hc ⟨.held call, ?_⟩ run
  cases h with
  | acquire hcall' _ hrest' _ =>
    obtain rfl := Option.some.inj (hcall.symm.trans hcall')
    obtain ⟨rfl, rfl⟩ := List.cons.inj (hrest.symm.trans hrest')
    simp [State.look, State.setCall]
  | refuse hcall' _ hrest' havail' =>
    obtain rfl := Option.some.inj (hcall.symm.trans hcall')
    obtain ⟨rfl, rfl⟩ := List.cons.inj (hrest.symm.trans hrest')
    exact absurd (havail.symm.trans havail') (by simp)

/-- In the states of a run, idle subscribers are responsive exactly when no closure
ends whose message is of another type than its subscriber's callback takes. -/
theorem never_silenced_iff (es : List (Event ω)) :
    (∀ st, Run.Visits Step .initial es st → ∀ s, Idle st s → Responsive st s) ↔
      ∀ st e u, Run.Takes Step .initial es st e u → EndsMatched st e := by
  constructor
  · rintro hall st _ u htakes w c rfl hc
    have hvisits := htakes.visits
    obtain ⟨fs, -, run, h⟩ := htakes
    have hs : Kept st ∧ Typed st := run.invariant (I := fun st => Kept st ∧ Typed st)
      (fun t e u hi h => ⟨hi.1.step h, hi.2.step hi.1 h⟩) ⟨kept_initial, typed_initial⟩
    have hty := hs.2.workers w
    cases hphase : st.workers w with
    | released d =>
      rw [hphase] at hty hc
      exact Option.some.inj hc ▸ hty
    | caught d =>
      obtain ⟨hgone, hidle⟩ := silenced_for_good hs.1 hphase h .nil
      have havail := (hall u hvisits d.subscriber hidle).available
      exact absurd (hgone.symm.trans havail) Bool.false_ne_true
    | idle | timer task =>
      rw [hphase] at hc
      exact absurd hc (by simp [closure?])
    | started d | inCallback d | returned d =>
      cases h <;> simp_all
  · intro hends st hv s hidle
    exact (hv.invariant_of_takes sustained_initial
      fun t e u ht hi => hi.step (hends t e u ht) ht.holds).responsive hidle

end

def mismatched : List (Event (Fin 6)) :=
  [.subscribe 1 .uint8Array, .begin 1 (.int8Array ⟨1, [7]⟩), .offer 0, .enqueue 0,
    .take ⟨0, by decide⟩ 0, .cast ⟨0, by decide⟩]

/-- Nothing is queued or running for the subscriber, and its semaphore is taken. -/
theorem mismatch_silences : ¬ ∀ (es : List (Event (Fin 6))) (st : State (Fin 6)),
    Run Step .initial es st → ∀ s, Idle st s → Responsive st s := by
  intro hall
  have hend : ∃ st ∈ mismatched.foldlM State.advance .initial,
      st.workers 0 = .caught ⟨0, 1, .int8Array ⟨1, [7]⟩, 0⟩ := by
    decide +kernel
  obtain ⟨st, hst, hw⟩ := hend
  have run := run_of_foldlM hst
  have hleave : Step st (.leave 0) (st.setWorker 0 .idle) := .leave (Or.inr hw)
  obtain ⟨hgone, hidle⟩ := silenced_for_good (run_kept run) hw hleave .nil
  have havail := (hall _ _ (run.snoc hleave) 0 hidle).available
  exact absurd (hgone.symm.trans havail) Bool.false_ne_true

end SwiftRobot.SemaphoreLeak
