import SwiftRobot.Support.ExclusiveTokens
import SwiftRobot.Support.Runs
import SwiftRobot.SwiftRobotClient

/-!
# Local delivery with many threads

Any number of notify calls and queue workers at once, each of their accesses to a
semaphore or to the queue one step. A subscriber's semaphore is the token of the one
closure that may be under way for it.
-/

namespace SwiftRobot.LocalDelivery
open Messages

/-- A notify call in progress. The range of its loop was fixed when the loop began.
`holding` is the closure it has taken a semaphore for and not yet queued. -/
structure NotifyCall where
  channel : UInt16
  msg : Msg
  remaining : List ℕ
  holding : Option Closure

/-- What a worker is at: it has taken a closure off the queue, runs the callback, is
back from it, has released the semaphore, or is in the catch block. -/
inductive Worker
  | idle
  | started (c : Closure)
  | inCallback (c : Closure)
  | returned (c : Closure)
  | released (c : Closure)
  | caught (c : Closure)
  | timer (task : ClientDispatcher.Task)
  deriving DecidableEq

def Worker.ofItem : QueueItem → Worker
  | .deliver c => .started c
  | .timer task => .timer task

def Worker.unreleased? : Worker → Option Closure
  | .started c | .inCallback c | .returned c | .caught c => some c
  | _ => none

def Worker.waiting? : Worker → Option Closure
  | .started c => some c
  | _ => none

/-- `ended`, `endedBefore` and `ran` are records: the calls that have returned, those
that had when a call began, and the closures whose callback was run. -/
structure State (ω : Type) where
  bus : LocalBus
  calls : ℕ → Option NotifyCall
  workers : ω → Worker
  ended : List ℕ
  endedBefore : ℕ → List ℕ
  ran : List Closure

inductive Event (ω : Type)
  | subscribe (channel : UInt8) (kind : MsgKind)
  | begin (channel : UInt16) (msg : Msg)
  | offer (call : ℕ)
  | enqueue (call : ℕ)
  | finish (call : ℕ)
  | schedule (time_point : ℕ) (task : ClientDispatcher.Task)
  | quit
  | take (w : ω) (now : ℕ)
  | cast (w : ω)
  | callbackReturns (w : ω)
  | release (w : ω)
  | leave (w : ω)

section
variable {ω : Type}

def State.initial : State ω := ⟨.initial, fun _ => none, fun _ => .idle, [], fun _ => [], []⟩

def State.kind? (st : State ω) (s : ℕ) : Option MsgKind := st.bus.subscribers[s]?.map (·.kind)

variable [DecidableEq ω]

def State.setCall (st : State ω) (call : ℕ) (n : Option NotifyCall) : State ω :=
  { st with calls := Function.update st.calls call n }

def State.setWorker (st : State ω) (w : ω) (phase : Worker) : State ω :=
  { st with workers := Function.update st.workers w phase }

/-- `release` is the last statement of the try block; the cast of the callback throws
when the message is of another type, and the catch block leaves the semaphore alone. -/
inductive Step (st : State ω) : Event ω → State ω → Prop
  | subscribe (channel : UInt8) (kind : MsgKind) :
    Step st (.subscribe channel kind) { st with bus := st.bus.subscribe channel kind }
  | begin (channel : UInt16) (msg : Msg) :
    Step st (.begin channel msg)
      { st.setCall st.bus.notified.length (some ⟨channel, msg, st.bus.range channel, none⟩) with
        bus := st.bus.begin channel msg
        endedBefore := Function.update st.endedBefore st.bus.notified.length st.ended }
  | acquire {call s : ℕ} {n : NotifyCall} {rest : List ℕ} : st.calls call = some n →
    n.holding = none → n.remaining = s :: rest → st.bus.available s = true →
    Step st (.offer call)
      { st.setCall call
          (some { n with remaining := rest, holding := some ⟨s, n.channel, n.msg, call⟩ }) with
        bus := st.bus.tryAcquire call s }
  | refuse {call s : ℕ} {n : NotifyCall} {rest : List ℕ} : st.calls call = some n →
    n.holding = none → n.remaining = s :: rest → st.bus.available s = false →
    Step st (.offer call)
      { st.setCall call (some { n with remaining := rest }) with
        bus := st.bus.tryAcquire call s }
  | enqueue {call : ℕ} {n : NotifyCall} {c : Closure} : st.calls call = some n →
    n.holding = some c →
    Step st (.enqueue call)
      { st.setCall call (some { n with holding := none }) with bus := st.bus.dispatch c }
  | finish {call : ℕ} {n : NotifyCall} : st.calls call = some n →
    n.holding = none → n.remaining = [] →
    Step st (.finish call) { st.setCall call none with ended := st.ended ++ [call] }
  | schedule (time_point : ℕ) (task : ClientDispatcher.Task) :
    Step st (.schedule time_point task)
      { st with
        bus := { st.bus with queue := st.bus.queue.dispatch_after time_point (.timer task) } }
  | quit : Step st .quit { st with bus := { st.bus with queue := st.bus.queue.quit } }
  | take {w : ω} {now : ℕ} {item : QueueItem} {q : DispatchQueue QueueItem} :
    st.workers w = .idle → st.bus.queue.Takes now item q →
    Step st (.take w now)
      { st.setWorker w (.ofItem item) with bus := { st.bus with queue := q } }
  | call {w : ω} {c : Closure} : st.workers w = .started c →
    st.kind? c.subscriber = some c.msg.kind →
    Step st (.cast w) { st.setWorker w (.inCallback c) with ran := st.ran ++ [c] }
  | mismatch {w : ω} {c : Closure} : st.workers w = .started c →
    st.kind? c.subscriber ≠ some c.msg.kind → Step st (.cast w) (st.setWorker w (.caught c))
  | callbackReturns {w : ω} {c : Closure} : st.workers w = .inCallback c →
    Step st (.callbackReturns w) (st.setWorker w (.returned c))
  | release {w : ω} {c : Closure} : st.workers w = .returned c →
    Step st (.release w)
      { st.setWorker w (.released c) with bus := st.bus.release c.subscriber }
  | leave {w : ω} {c : Closure} : st.workers w = .released c ∨ st.workers w = .caught c →
    Step st (.leave w) (st.setWorker w .idle)
  | timerEnds {w : ω} {task : ClientDispatcher.Task} : st.workers w = .timer task →
    Step st (.leave w) (st.setWorker w .idle)

def State.advance (st : State ω) : Event ω → Option (State ω)
  | .subscribe channel kind => some { st with bus := st.bus.subscribe channel kind }
  | .begin channel msg =>
    some
      { st.setCall st.bus.notified.length (some ⟨channel, msg, st.bus.range channel, none⟩) with
        bus := st.bus.begin channel msg
        endedBefore := Function.update st.endedBefore st.bus.notified.length st.ended }
  | .offer call =>
    match st.calls call with
    | some ⟨channel, msg, s :: rest, none⟩ =>
      let holding := if st.bus.available s then some ⟨s, channel, msg, call⟩ else none
      some
        { st.setCall call (some ⟨channel, msg, rest, holding⟩) with
          bus := st.bus.tryAcquire call s }
    | _ => none
  | .enqueue call =>
    match st.calls call with
    | some ⟨channel, msg, remaining, some c⟩ =>
      some { st.setCall call (some ⟨channel, msg, remaining, none⟩) with bus := st.bus.dispatch c }
    | _ => none
  | .finish call =>
    match st.calls call with
    | some ⟨_, _, [], none⟩ => some { st.setCall call none with ended := st.ended ++ [call] }
    | _ => none
  | .schedule time_point task =>
    some
      { st with
        bus := { st.bus with queue := st.bus.queue.dispatch_after time_point (.timer task) } }
  | .quit => some { st with bus := { st.bus with queue := st.bus.queue.quit } }
  | .take w now =>
    match st.workers w, st.bus.queue.take? now with
    | .idle, some (item, q) =>
      some { st.setWorker w (.ofItem item) with bus := { st.bus with queue := q } }
    | _, _ => none
  | .cast w =>
    match st.workers w with
    | .started c =>
      if st.kind? c.subscriber = some c.msg.kind then
        some { st.setWorker w (.inCallback c) with ran := st.ran ++ [c] }
      else some (st.setWorker w (.caught c))
    | _ => none
  | .callbackReturns w =>
    match st.workers w with
    | .inCallback c => some (st.setWorker w (.returned c))
    | _ => none
  | .release w =>
    match st.workers w with
    | .returned c =>
      some { st.setWorker w (.released c) with bus := st.bus.release c.subscriber }
    | _ => none
  | .leave w =>
    match st.workers w with
    | .released _ | .caught _ | .timer _ => some (st.setWorker w .idle)
    | _ => none

theorem step_of_advance {st u : State ω} {e : Event ω} (h : st.advance e = some u) :
    Step st e u := by
  cases e with
  | subscribe channel kind =>
    cases h
    exact .subscribe channel kind
  | begin channel msg =>
    cases h
    exact .begin channel msg
  | offer call =>
    simp only [State.advance] at h
    split at h
    · next channel msg s rest hcall =>
      cases havail : st.bus.available s with
      | true =>
        simp only [havail, if_true, Option.some.injEq] at h
        subst h
        exact .acquire hcall rfl rfl havail
      | false =>
        simp only [havail, Bool.false_eq_true, if_false, Option.some.injEq] at h
        subst h
        exact .refuse hcall rfl rfl havail
    · cases h
  | enqueue call =>
    simp only [State.advance] at h
    split at h
    · next channel msg remaining c hcall =>
      cases h
      exact .enqueue hcall rfl
    · cases h
  | finish call =>
    simp only [State.advance] at h
    split at h
    · next channel msg hcall =>
      cases h
      exact .finish hcall rfl rfl
    · cases h
  | schedule time_point task =>
    cases h
    exact .schedule time_point task
  | quit =>
    cases h
    exact .quit
  | take w now =>
    simp only [State.advance] at h
    split at h
    · next item q hw hq =>
      cases h
      exact .take hw (DispatchQueue.takes_of_take? hq)
    · cases h
  | cast w =>
    simp only [State.advance] at h
    split at h
    · next c hw =>
      split_ifs at h with hkind
      · cases h
        exact .call hw hkind
      · cases h
        exact .mismatch hw hkind
    · cases h
  | callbackReturns w =>
    simp only [State.advance] at h
    split at h
    · next c hw =>
      cases h
      exact .callbackReturns hw
    · cases h
  | release w =>
    simp only [State.advance] at h
    split at h
    · next c hw =>
      cases h
      exact .release hw
    · cases h
  | leave w =>
    simp only [State.advance] at h
    split at h
    · next c hw =>
      cases h
      exact .leave (Or.inl hw)
    · next c hw =>
      cases h
      exact .leave (Or.inr hw)
    · next task hw =>
      cases h
      exact .timerEnds hw
    · cases h

theorem run_of_foldlM {st u : State ω} {es : List (Event ω)}
    (h : es.foldlM State.advance st = some u) : Run Step st es u :=
  (Run.iff_foldlM.mpr h).mono fun _ _ _ => step_of_advance

end

inductive Place (ω : Type)
  | held (call : ℕ)
  | queued (position : ℕ)
  | running (w : ω)
  deriving DecidableEq

def deliver? : QueueItem → Option Closure
  | .deliver c => some c
  | .timer _ => none

/-- A way to look at workers: it sees the closure that a worker takes, and loses sight
of it at some point before the worker is idle again. -/
structure View (view : Worker → Option Closure) : Prop where
  idle : view .idle = none
  item : ∀ item, view (.ofItem item) = deliver? item
  inCallback : ∀ c d, view (.inCallback c) = some d → view (.started c) = some d
  caught : ∀ c d, view (.caught c) = some d → view (.started c) = some d
  returned : ∀ c d, view (.returned c) = some d → view (.inCallback c) = some d
  released : ∀ c, view (.released c) = none

theorem view_unreleased : View Worker.unreleased? where
  idle := rfl
  item item := by cases item <;> rfl
  inCallback _ _ h := h
  caught _ _ h := h
  returned _ _ h := h
  released _ := rfl

theorem view_waiting : View Worker.waiting? where
  idle := rfl
  item item := by cases item <;> rfl
  inCallback _ _ h := nomatch h
  caught _ _ h := nomatch h
  returned _ _ h := nomatch h
  released _ := rfl

section
variable {ω : Type}

def State.look (view : Worker → Option Closure) (st : State ω) : Place ω → Option Closure
  | .held call => (st.calls call).bind (·.holding)
  | .queued position => st.bus.queue.q_[position]?.bind deliver?
  | .running w => view (st.workers w)

abbrev State.at? (st : State ω) : Place ω → Option Closure := st.look Worker.unreleased?

abbrev State.waiting? (st : State ω) : Place ω → Option Closure := st.look Worker.waiting?

def State.ledger (view : Worker → Option Closure) (st : State ω) : Ledger (Place ω) Closure ℕ :=
  ⟨st.look view, st.bus.available⟩

structure Tidy (st : State ω) : Prop where
  timers : ∀ item ∈ st.bus.queue.pq_, deliver? item.2 = none
  numbered : ∀ call n, st.calls call = some n → st.bus.notified[call]? = some (n.channel, n.msg)

theorem Tidy.fresh {st : State ω} (ht : Tidy st) : st.calls st.bus.notified.length = none := by
  by_contra hne
  obtain ⟨n, hn⟩ := Option.ne_none_iff_exists'.mp hne
  have h := ht.numbered _ n hn
  simp at h

theorem at?_of_waiting? {st : State ω} {p : Place ω} {c : Closure} (h : st.waiting? p = some c) :
    st.at? p = some c := by
  cases p with
  | held call => exact h
  | queued position => exact h
  | running w =>
    simp only [State.look] at h ⊢
    cases hw : st.workers w <;> simp_all [Worker.waiting?, Worker.unreleased?]

variable [DecidableEq ω]

theorem Tidy.step {st u : State ω} {e : Event ω} (ht : Tidy st) (h : Step st e u) : Tidy u := by
  -- a call that goes on keeps its channel and its message
  have hset : ∀ {call : ℕ} {n : NotifyCall} {m : Option NotifyCall}, st.calls call = some n →
      (∀ l ∈ m, l.channel = n.channel ∧ l.msg = n.msg) →
      ∀ k l, Function.update st.calls call m k = some l →
        st.bus.notified[k]? = some (l.channel, l.msg) := by
    intro call n m hcall hsame k l hk
    by_cases hkc : k = call
    · subst hkc
      rw [Function.update_self] at hk
      obtain ⟨hchannel, hmsg⟩ := hsame l hk
      rw [hchannel, hmsg]
      exact ht.numbered k n hcall
    · rw [Function.update_of_ne hkc] at hk
      exact ht.numbered k l hk
  cases h with
  | begin channel msg =>
    refine ⟨ht.timers, fun k l hk => ?_⟩
    simp only [LocalBus.begin, List.getElem?_append]
    by_cases hkc : k = st.bus.notified.length
    · subst hkc
      simp only [State.setCall, Function.update_self, Option.some.injEq] at hk
      simp [← hk]
    · simp only [State.setCall, Function.update_of_ne hkc] at hk
      have hk := ht.numbered k l hk
      rw [if_pos (List.getElem?_eq_some_iff.mp hk).1, hk]
  | acquire hcall => exact ⟨ht.timers, hset hcall (by simp)⟩
  | refuse hcall => exact ⟨ht.timers, hset hcall (by simp)⟩
  | enqueue hcall => exact ⟨ht.timers, hset hcall (by simp)⟩
  | finish hcall => exact ⟨ht.timers, hset hcall (by simp)⟩
  | schedule time_point task =>
    refine ⟨fun item hitem => ?_, ht.numbered⟩
    rcases List.mem_append.mp hitem with hitem | hitem
    · exact ht.timers item hitem
    · rw [List.mem_singleton.mp hitem]
      rfl
  | take _ htakes =>
    refine ⟨fun item hitem => ?_, ht.numbered⟩
    cases htakes with
    | delayed _ hpq _ _ =>
      apply ht.timers item
      rw [hpq]
      rcases List.mem_append.mp hitem with hitem | hitem
      · exact List.mem_append_left _ hitem
      · exact List.mem_append_right _ (List.mem_cons_of_mem _ hitem)
    | immediate _ _ _ => exact ht.timers item hitem
  | _ => exact ⟨ht.timers, ht.numbered⟩

section
variable {st u : State ω}

variable {view : Worker → Option Closure}

theorem look_of_setCall {k : ℕ} {n : Option NotifyCall}
    (hcalls : u.calls = Function.update st.calls k n)
    (hq : u.bus.queue.q_ = st.bus.queue.q_) (hw : u.workers = st.workers) (p : Place ω) :
    u.look view p = if p = .held k then n.bind (·.holding) else st.look view p := by
  cases p with
  | held call =>
    simp only [State.look, hcalls, Function.update_apply, Place.held.injEq]
    split_ifs <;> rfl
  | queued position => simp [State.look, hq]
  | running w => simp [State.look, hw]

theorem look_of_setWorker {w : ω} {phase : Worker}
    (hworkers : u.workers = Function.update st.workers w phase)
    (hq : u.bus.queue.q_ = st.bus.queue.q_) (hc : u.calls = st.calls) (p : Place ω) :
    u.look view p = if p = .running w then view phase else st.look view p := by
  cases p with
  | held call => simp [State.look, hc]
  | queued position => simp [State.look, hq]
  | running w' =>
    simp only [State.look, hworkers, Function.update_apply, Place.running.injEq]
    split_ifs <;> rfl

omit [DecidableEq ω] in
theorem change_of_same (hlook : ∀ p, u.look view p = st.look view p)
    (hfree : u.bus.available = st.bus.available) :
    Ledger.Change Closure.subscriber (st.ledger view) (u.ledger view) := .same hlook hfree

theorem change_of_phase {w : ω} {phase : Worker}
    (hworkers : u.workers = Function.update st.workers w phase) (hbus : u.bus = st.bus)
    (hc : u.calls = st.calls) (hphase : view phase = view (st.workers w)) :
    Ledger.Change Closure.subscriber (st.ledger view) (u.ledger view) := by
  refine change_of_same (fun p => ?_) (by rw [hbus])
  rw [look_of_setWorker hworkers (by rw [hbus]) hc p]
  split_ifs with hp
  · rw [hp, hphase]
    rfl
  · rfl

theorem change_of_empty {call : ℕ} {m : Option NotifyCall}
    (hnone : st.look view (.held call) = none) (hm : m.bind (·.holding) = none)
    (hcalls : u.calls = Function.update st.calls call m)
    (hq : u.bus.queue.q_ = st.bus.queue.q_) (hw : u.workers = st.workers)
    (hfree : u.bus.available = st.bus.available) :
    Ledger.Change Closure.subscriber (st.ledger view) (u.ledger view) := by
  refine change_of_same (fun p => ?_) hfree
  rw [look_of_setCall hcalls hq hw p]
  split_ifs with hp
  · rw [hm, hp, hnone]
  · rfl

theorem change_of_acquire {call : ℕ} {n m : NotifyCall} {c : Closure}
    (hcall : st.calls call = some n) (hnone : n.holding = none) (hm : m.holding = some c)
    (havail : st.bus.available c.subscriber = true)
    (hcalls : u.calls = Function.update st.calls call (some m))
    (hbus : u.bus = st.bus.tryAcquire call c.subscriber) (hw : u.workers = st.workers) :
    Ledger.Change Closure.subscriber (st.ledger view) (u.ledger view) := by
  have hlook : ∀ p, u.look view p = _ := look_of_setCall hcalls (by rw [hbus]; rfl) hw
  refine .acquires (.held call) c havail ?_ ?_ ?_ ?_
  · simp [State.ledger, State.look, hcall, hnone]
  · exact ((hlook _).trans (if_pos rfl)).trans hm
  · exact fun q hq => (hlook q).trans (if_neg hq)
  · simp only [State.ledger, hbus]
    rfl

theorem change_of_enqueue {call : ℕ} {n m : NotifyCall} {c : Closure}
    (hcall : st.calls call = some n) (hheld : n.holding = some c) (hm : m.holding = none)
    (hcalls : u.calls = Function.update st.calls call (some m))
    (hbus : u.bus = st.bus.dispatch c) (hw : u.workers = st.workers) :
    Ledger.Change Closure.subscriber (st.ledger view) (u.ledger view) := by
  have hq : u.bus.queue.q_ = st.bus.queue.q_ ++ [.deliver c] := by
    rw [hbus]
    rfl
  let last : Place ω := .queued st.bus.queue.q_.length
  refine .carried (p := .held call) (q := last) ?_ ?_ ?_ ?_ ?_
  · simp [State.ledger, State.look, hcalls, hm]
  · simp [State.ledger, State.look, last, hq, deliver?, hcall, hheld]
  · simp [State.ledger, State.look, last]
  · intro r hr hlast
    cases r with
    | held k =>
      have hk : k ≠ call := fun hk => hr (congrArg Place.held hk)
      simp [State.ledger, State.look, hcalls, Function.update_of_ne hk]
    | queued i =>
      have hi : i ≠ st.bus.queue.q_.length := fun hi => hlast (congrArg Place.queued hi)
      simp only [State.ledger, State.look, hq]
      by_cases hlt : i < st.bus.queue.q_.length
      · rw [List.getElem?_append_left hlt]
      · rw [List.getElem?_eq_none (by simp only [List.length_append, List.length_singleton]; omega),
          List.getElem?_eq_none (by omega)]
    | running w => simp [State.ledger, State.look, hw]
  · simp only [State.ledger, hbus]
    rfl

theorem change_of_take {w : ω} {now : ℕ} {item : QueueItem} (hview : View view)
    (ht : Tidy st) (hidle : st.workers w = .idle)
    (htakes : st.bus.queue.Takes now item u.bus.queue)
    (hworkers : u.workers = Function.update st.workers w (.ofItem item))
    (hfree : u.bus.available = st.bus.available) (hc : u.calls = st.calls) :
    Ledger.Change Closure.subscriber (st.ledger view) (u.ledger view) := by
  have hworker : ∀ w', u.look view (.running w') =
      if w' = w then deliver? item else st.look view (.running w') := by
    intro w'
    simp only [State.look, hworkers, Function.update_apply, ← hview.item]
    split_ifs <;> rfl
  have hcalled : ∀ k, u.look view (.held k) = st.look view (.held k) := by
    intro k
    simp [State.look, hc]
  generalize hqueue : u.bus.queue = queue at htakes
  cases htakes with
  | @delayed before after item _ hpq _ _ =>
    have htimer : deliver? item.2 = none := ht.timers item (by simp [hpq])
    refine change_of_same (fun p => ?_) hfree
    cases p with
    | held k => exact hcalled k
    | queued i => simp [State.look, hqueue]
    | running w' =>
      rw [hworker]
      split_ifs with hw
      · rw [htimer, hw]
        simp [State.look, hidle, hview.idle]
      · rfl
  | @immediate _ rest _ _ hq =>
    have hfront : st.look view (.queued 0) = deliver? item := by simp [State.look, hq]
    have hrest : ∀ i, u.look view (.queued i) = st.look view (.queued (i + 1)) := by
      intro i
      simp [State.look, hq, hqueue]
    let back : Place ω → Place ω
      | .held k => .held k
      | .queued i => .queued (i + 1)
      | .running w' => if w' = w then .queued 0 else .running w'
    have hback : ∀ p, u.look view p = st.look view (back p) := by
      intro p
      cases p with
      | held k => exact hcalled k
      | queued i => exact hrest i
      | running w' =>
        rw [hworker]
        simp only [back]
        split_ifs
        · exact hfront.symm
        · rfl
    refine .moves back (fun p i hp => (hback p).symm.trans hp) ?_ ?_ hfree
    · intro p q _ _ h
      cases p <;> cases q <;> simp only [back] at h <;> grind
    · intro p i hp
      cases p with
      | held k => exact ⟨.held k, (hcalled k).trans hp⟩
      | queued j =>
        cases j with
        | zero => exact ⟨.running w, by simpa [State.ledger, hworker] using hfront.symm.trans hp⟩
        | succ j => exact ⟨.queued j, (hrest j).trans hp⟩
      | running w' =>
        have hw : w' ≠ w := by
          rintro rfl
          simp [State.ledger, State.look, hidle, hview.idle] at hp
        exact ⟨.running w', by simpa [State.ledger, hworker, hw] using hp⟩

theorem change_of_release {w : ω} {c : Closure} (hw : st.workers w = .returned c)
    (hworkers : u.workers = Function.update st.workers w (.released c))
    (hbus : u.bus = st.bus.release c.subscriber) (hc : u.calls = st.calls) :
    Ledger.Change Closure.subscriber (st.ledger Worker.unreleased?)
      (u.ledger Worker.unreleased?) := by
  have hlook : ∀ p, u.at? p = _ := look_of_setWorker hworkers (by rw [hbus]; rfl) hc
  refine .releases (.running w) c ?_ ?_ ?_ ?_
  · simp [State.ledger, State.look, hw, Worker.unreleased?]
  · exact (hlook _).trans (if_pos rfl)
  · exact fun q hq => (hlook q).trans (if_neg hq)
  · simp only [State.ledger, hbus]
    rfl

theorem leak_of_caught {w : ω} {c : Closure} (hw : st.workers w = .caught c) :
    Ledger.Leak (st.ledger Worker.unreleased?) ((st.setWorker w .idle).ledger Worker.unreleased?)
      (.running w) c := by
  have hlook : ∀ p, (st.setWorker w .idle).at? p = _ := look_of_setWorker rfl rfl rfl
  refine ⟨?_, (hlook _).trans (if_pos rfl), fun q hq => (hlook q).trans (if_neg hq), rfl⟩
  simp [State.ledger, State.look, hw, Worker.unreleased?]

theorem step_ledger {e : Event ω} (ht : Tidy st) (h : Step st e u) :
    Ledger.Change Closure.subscriber (st.ledger Worker.unreleased?)
        (u.ledger Worker.unreleased?) ∨
      ∃ w c, e = .leave w ∧ st.workers w = .caught c ∧
        Ledger.Leak (st.ledger Worker.unreleased?) (u.ledger Worker.unreleased?) (.running w) c := by
  cases h with
  | subscribe channel kind => exact Or.inl (change_of_same (fun p => by cases p <;> rfl) rfl)
  | begin channel msg =>
    exact Or.inl (change_of_empty (by simp [State.look, ht.fresh]) rfl rfl rfl rfl rfl)
  | @acquire call s n rest hcall hnone _ havail =>
    exact Or.inl (change_of_acquire (c := ⟨s, n.channel, n.msg, call⟩) hcall hnone rfl havail
      rfl rfl rfl)
  | refuse hcall hnone _ havail =>
    exact Or.inl (change_of_empty (by simp [State.look, hcall, hnone]) (by exact hnone) rfl rfl rfl
      (by simp [LocalBus.tryAcquire, ← havail]))
  | enqueue hcall hheld => exact Or.inl (change_of_enqueue hcall hheld rfl rfl rfl rfl)
  | finish hcall hnone _ => exact Or.inl (change_of_empty
      (by simp [State.look, hcall, hnone]) rfl rfl rfl rfl rfl)
  | schedule time_point task => exact Or.inl (change_of_same (fun p => by cases p <;> rfl) rfl)
  | quit => exact Or.inl (change_of_same (fun p => by cases p <;> rfl) rfl)
  | take hidle htakes => exact Or.inl (change_of_take view_unreleased ht hidle htakes rfl rfl rfl)
  | call hw _ => exact Or.inl (change_of_phase rfl rfl rfl (by rw [hw]; rfl))
  | mismatch hw _ => exact Or.inl (change_of_phase rfl rfl rfl (by rw [hw]; rfl))
  | callbackReturns hw => exact Or.inl (change_of_phase rfl rfl rfl (by rw [hw]; rfl))
  | release hw => exact Or.inl (change_of_release hw rfl rfl rfl)
  | @leave w c hw =>
    rcases hw with hw | hw
    · exact Or.inl (change_of_phase rfl rfl rfl (by rw [hw]; rfl))
    · exact Or.inr ⟨w, c, rfl, hw, leak_of_caught hw⟩
  | timerEnds hw => exact Or.inl (change_of_phase rfl rfl rfl (by rw [hw]; rfl))

def Acquires (st : State ω) (e : Event ω) (c : Closure) : Prop :=
  ∃ n rest, e = .offer c.call ∧ st.calls c.call = some n ∧ n.remaining = c.subscriber :: rest ∧
    c.channel = n.channel ∧ c.msg = n.msg ∧ st.bus.available c.subscriber = true

omit [DecidableEq ω] in
theorem source_of_change {p : Place ω} {c : Closure} (hp : u.look view p = some c)
    (hc : Ledger.Change Closure.subscriber (st.ledger view) (u.ledger view))
    (hfree : u.bus.available = st.bus.available) : ∃ q, st.look view q = some c := by
  rcases hc.source hp with h | ⟨h, h'⟩
  · exact h
  · simp only [State.ledger, hfree] at h h'
    exact absurd (h.symm.trans h') Bool.true_eq_false.mp

theorem source_of_setWorker {w : ω} {phase : Worker} {p : Place ω} {c : Closure}
    (hp : u.look view p = some c)
    (hworkers : u.workers = Function.update st.workers w phase)
    (hq : u.bus.queue.q_ = st.bus.queue.q_) (hc : u.calls = st.calls)
    (hphase : ∀ c, view phase = some c → view (st.workers w) = some c) : ∃ q, st.look view q = some c := by
  rw [look_of_setWorker hworkers hq hc] at hp
  split_ifs at hp with hpw
  · exact ⟨.running w, hphase c hp⟩
  · exact ⟨p, hp⟩

theorem source_of_setCall {k : ℕ} {n : Option NotifyCall} {p : Place ω} {c : Closure}
    (hp : u.look view p = some c) (hcalls : u.calls = Function.update st.calls k n)
    (hq : u.bus.queue.q_ = st.bus.queue.q_) (hw : u.workers = st.workers) :
    (∃ q, st.look view q = some c) ∨ n.bind (·.holding) = some c := by
  rw [look_of_setCall hcalls hq hw] at hp
  split_ifs at hp
  · exact Or.inr hp
  · exact Or.inl ⟨p, hp⟩

theorem step_source {e : Event ω} (hview : View view) (ht : Tidy st) (h : Step st e u)
    {p : Place ω} {c : Closure} (hp : u.look view p = some c) :
    (∃ q, st.look view q = some c) ∨ Acquires st e c := by
  cases h with
  | subscribe channel kind =>
    exact Or.inl (source_of_change hp (change_of_same (fun p => by cases p <;> rfl) rfl) rfl)
  | begin channel msg =>
    exact Or.inl (source_of_change hp
      (change_of_empty (by simp [State.look, ht.fresh]) rfl rfl rfl rfl rfl) rfl)
  | @acquire call s n rest hcall hnone hrest havail =>
    rcases source_of_setCall hp rfl rfl rfl with hq | hc
    · exact Or.inl hq
    · simp only [Option.bind_some, Option.some.injEq] at hc
      subst hc
      exact Or.inr ⟨n, rest, rfl, hcall, hrest, rfl, rfl, havail⟩
  | @refuse call s n rest hcall hnone _ havail =>
    have hfree : Function.update st.bus.available s false = st.bus.available := by
      rw [← havail, Function.update_eq_self]
    exact Or.inl (source_of_change hp (change_of_empty (by simp [State.look, hcall, hnone])
      (by exact hnone) rfl rfl rfl hfree) hfree)
  | enqueue hcall hheld =>
    exact Or.inl (source_of_change hp (change_of_enqueue hcall hheld rfl rfl rfl rfl) rfl)
  | finish hcall hnone _ =>
    exact Or.inl (source_of_change hp (change_of_empty (by simp [State.look, hcall, hnone])
      rfl rfl rfl rfl rfl) rfl)
  | schedule time_point task =>
    exact Or.inl (source_of_change hp (change_of_same (fun p => by cases p <;> rfl) rfl) rfl)
  | quit =>
    exact Or.inl (source_of_change hp (change_of_same (fun p => by cases p <;> rfl) rfl) rfl)
  | take hidle htakes =>
    exact Or.inl (source_of_change hp (change_of_take hview ht hidle htakes rfl rfl rfl) rfl)
  | call hw _ =>
    exact Or.inl (source_of_setWorker hp rfl rfl rfl (fun c hc => hw ▸ hview.inCallback _ c hc))
  | mismatch hw _ =>
    exact Or.inl (source_of_setWorker hp rfl rfl rfl (fun c hc => hw ▸ hview.caught _ c hc))
  | callbackReturns hw =>
    exact Or.inl (source_of_setWorker hp rfl rfl rfl (fun c hc => hw ▸ hview.returned _ c hc))
  | release hw =>
    refine Or.inl (source_of_setWorker hp rfl rfl rfl (fun c hc => ?_))
    rw [hview.released] at hc
    exact absurd hc (by simp)
  | leave hw =>
    refine Or.inl (source_of_setWorker hp rfl rfl rfl (fun c hc => ?_))
    rw [hview.idle] at hc
    exact absurd hc (by simp)
  | timerEnds hw =>
    refine Or.inl (source_of_setWorker hp rfl rfl rfl (fun c hc => ?_))
    rw [hview.idle] at hc
    exact absurd hc (by simp)

omit [DecidableEq ω] in
theorem tidy_initial : Tidy (State.initial : State ω) :=
  ⟨fun _ h => absurd h List.not_mem_nil, fun _ _ h => nomatch h⟩

omit [DecidableEq ω] in
theorem at?_initial (p : Place ω) : (State.initial : State ω).at? p = none := by
  cases p with
  | held call => rfl
  | queued position => simp [State.look, State.initial, LocalBus.initial, DispatchQueue.initial]
  | running w => rfl

omit [DecidableEq ω] in
theorem serial_initial :
    (State.initial.ledger Worker.unreleased? : Ledger (Place ω) Closure ℕ).Serial
      Closure.subscriber :=
  ⟨fun p _ h => absurd ((at?_initial p).symm.trans h) (by simp),
    fun p _ _ _ h _ => absurd ((at?_initial p).symm.trans h) (by simp)⟩

theorem serial_step {e : Event ω} (ht : Tidy st)
    (hs : (st.ledger Worker.unreleased?).Serial Closure.subscriber) (h : Step st e u) :
    (u.ledger Worker.unreleased?).Serial Closure.subscriber := by
  rcases step_ledger ht h with hc | ⟨w, c, -, -, hl⟩
  · exact hs.change hc
  · exact hs.leak hl

theorem run_offer {call s : ℕ} {channel : UInt16} {msg : Msg} {rest : List ℕ}
    (hcall : st.calls call = some ⟨channel, msg, s :: rest, none⟩) :
    ∃ es u, Run Step st es u ∧ u.bus = st.bus.offer channel msg call s ∧
      u.calls = Function.update st.calls call (some ⟨channel, msg, rest, none⟩) ∧
      u.workers = st.workers := by
  cases havail : st.bus.available s with
  | true =>
    obtain ⟨t, hacquire, hcalls, hbus, hworkers⟩ : ∃ t, Step st (.offer call) t ∧
        t.calls = Function.update st.calls call
          (some ⟨channel, msg, rest, some ⟨s, channel, msg, call⟩⟩) ∧
        t.bus = st.bus.tryAcquire call s ∧ t.workers = st.workers :=
      ⟨_, .acquire hcall rfl rfl havail, rfl, rfl, rfl⟩
    have hheld := (congrFun hcalls call).trans (Function.update_self _ _ _)
    refine ⟨_, _, (Run.single hacquire).snoc (.enqueue hheld rfl), ?_, ?_, hworkers⟩
    · simp [LocalBus.offer, havail, hbus]
    · simp [State.setCall, hcalls]
  | false =>
    exact ⟨_, _, Run.single (Step.refuse hcall rfl rfl havail), by simp [LocalBus.offer, havail],
      rfl, rfl⟩

theorem run_loop {call : ℕ} {channel : UInt16} {msg : Msg} (l : List ℕ)
    (hcall : st.calls call = some ⟨channel, msg, l, none⟩) :
    ∃ es u, Run Step st es u ∧ u.bus = l.foldl (fun b s => b.offer channel msg call s) st.bus ∧
      u.calls = Function.update st.calls call (some ⟨channel, msg, [], none⟩) ∧
      u.workers = st.workers := by
  induction l generalizing st with
  | nil => exact ⟨[], st, .nil, rfl, by rw [← hcall, Function.update_eq_self], rfl⟩
  | cons s rest ih =>
    obtain ⟨es, t, run, hbus, hcalls, hworkers⟩ := run_offer hcall
    obtain ⟨fs, u, run', hbus', hcalls', hworkers'⟩ :=
      ih ((congrFun hcalls call).trans (Function.update_self _ _ _))
    refine ⟨es ++ fs, u, run.append run', by rw [hbus', hbus]; rfl, ?_, hworkers'.trans hworkers⟩
    rw [hcalls', hcalls, Function.update_idem]

/-- A notify call that nothing comes between does to the bus what `notify` does. -/
theorem run_notify (ht : Tidy st) (channel : UInt16) (msg : Msg) :
    ∃ es u, Run Step st es u ∧ u.bus = st.bus.notify channel msg ∧ u.calls = st.calls ∧
      u.workers = st.workers := by
  let call := st.bus.notified.length
  obtain ⟨t, hbegin, hcalls, hbus, hworkers⟩ : ∃ t, Step st (.begin channel msg) t ∧
      t.calls = Function.update st.calls call (some ⟨channel, msg, st.bus.range channel, none⟩) ∧
      t.bus = st.bus.begin channel msg ∧ t.workers = st.workers :=
    ⟨_, .begin channel msg, rfl, rfl, rfl⟩
  obtain ⟨es, v, run, hbus', hcalls', hworkers'⟩ := run_loop (st.bus.range channel)
    ((congrFun hcalls call).trans (Function.update_self _ _ _))
  have hdone := (congrFun hcalls' call).trans (Function.update_self _ _ _)
  refine ⟨_, _, ((Run.single hbegin).append run).snoc (.finish hdone rfl rfl), ?_, ?_,
    hworkers'.trans hworkers⟩
  · exact hbus'.trans (by rw [hbus]; rfl)
  · -- the number of the call was free before it
    simp only [State.setCall, hcalls', hcalls, Function.update_idem, call]
    rw [← ht.fresh, Function.update_eq_self]

end
end
end SwiftRobot.LocalDelivery
