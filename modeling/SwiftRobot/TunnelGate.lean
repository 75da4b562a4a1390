import SwiftRobot.ConnectionThreads
import SwiftRobot.Support.Mutex

/-!
# The status of a connection as its send gate

`disconnect` writes CONNECTED before it closes the socket, and the listening thread does so
on an answer even while another thread replaces the socket. In between `send` finds the
gate open.
-/

namespace SwiftRobot.TunnelGate
open ByteWords PacketHeaders Connection ConnectionThreads Mutex

section
variable {θ : Type}

/-- A call that replaces the socket begins to do so while no other does and no packet is
behind the gate, and no packet gets behind the gate while one does. -/
def Exclusive (s : State θ) : Event θ → Prop
  | .step t _ =>
    (s.threads t = .aborts ∨ s.threads t = .test ∧ s.status = .wantingConnection →
      ¬ s.Replacing ∧ ¬ s.Passing) ∧
    ((s.threads t).sending.gates = true → s.status = .connected → ¬ s.Replacing)
  | .handle => ∀ l ∈ s.listener, l.handler.sending.gates = true → s.status = .connected →
      ¬ s.Replacing
  | _ => True

variable {s u : State θ} {t : θ} {q' : Phase} {l l' : Listener} {owner : Option θ}

structure Sound (owner : Option θ) (s : State θ) : Prop where
  guarded : Guarded Phase.Replaces s.threads owner
  answered : ∀ l ∈ s.listener, l.handler = .ok → ∃ g ∈ s.accepted, l.on = some g
  free : owner = none → s.Linked ∧ (s.status = .connected → s.Accepted) ∧ (s.Passing → s.Accepted)
  held : ∀ t, owner = some t → ¬ s.Passing ∧ s.Fits (s.threads t)

theorem Sound.initial : Sound none (State.initial : State θ) := by
  refine ⟨fun w => ⟨fun h => by contradiction, fun h => by contradiction⟩,
    fun l hl => by contradiction, ?_, ?_⟩
  · intro _
    refine ⟨fun l hl => by contradiction, fun h => by contradiction, ?_⟩
    rintro (⟨t, h⟩ | ⟨l, hl, -⟩) <;> contradiction
  · intro t h
    contradiction

theorem Sound.owner_eq_none (h : Sound owner s) (hfree : ¬ s.Replacing) : owner = none := by
  cases howner : owner with
  | none => rfl
  | some t => exact absurd ⟨t, (h.guarded t).mpr howner⟩ hfree

theorem Sound.not_replacing (h : Sound none s) : ¬ s.Replacing := by
  rintro ⟨t, ht⟩
  exact h.guarded.not_inside t ht

theorem Sound.passing (h : Sound owner s) (hp : s.Passing) : ¬ s.Replacing ∧ s.Accepted := by
  cases howner : owner with
  | none =>
    subst howner
    exact ⟨h.not_replacing, (h.free rfl).2.2 hp⟩
  | some t => exact absurd hp (h.held t howner).1

section
variable [DecidableEq θ]

theorem Sound.outside (h : Sound owner s) (hsame : Same s u)
    (hthreads : u.threads = Function.update s.threads t q') (hq : ¬ (s.threads t).Replaces)
    (hq' : ¬ q'.Replaces) (hstatus : u.status = .connected → s.status = .connected)
    (hpass : q'.sending.passes = true → s.status = .connected ∧ ¬ s.Replacing) :
    Sound owner u := by
  refine ⟨?_, ?_, ?_, ?_⟩
  · rw [hthreads]
    exact h.guarded.moves rfl (iff_of_false hq' hq)
  · rw [hsame.listener, hsame.accepted]
    exact h.answered
  · intro howner
    obtain ⟨hlinked, hgate, hpassing⟩ := h.free howner
    rw [hsame.linked_iff, hsame.accepted_iff]
    refine ⟨hlinked, fun hc => hgate (hstatus hc), fun hp => ?_⟩
    rcases passing_of_update hsame.listener hthreads hp with hnew | hold
    · exact hgate (hpass hnew).1
    · exact hpassing hold
  · intro v hv
    obtain ⟨hnot, hfits⟩ := h.held v hv
    have hreplaces := (h.guarded v).mpr hv
    constructor
    · intro hp
      rcases passing_of_update hsame.listener hthreads hp with hnew | hold
      · exact (hpass hnew).2 ⟨v, hreplaces⟩
      · exact hnot hold
    · have hne : v ≠ t := by
        rintro rfl
        exact hq hreplaces
      rw [hthreads, Function.update_of_ne hne]
      exact hsame.fits hfits

theorem Sound.enter (h : Sound owner s) (hsame : Same s u)
    (hthreads : u.threads = Function.update s.threads t q') (hq' : q'.Replaces)
    (hfree : ¬ s.Replacing) (hpass : ¬ s.Passing) (hfits : s.Linked → s.Fits q') :
    Sound (some t) u := by
  obtain rfl := h.owner_eq_none hfree
  refine ⟨?_, ?_, fun hnone => by contradiction, fun v hv => ?_⟩
  · rw [hthreads]
    exact h.guarded.acquire hq'
  · rw [hsame.listener, hsame.accepted]
    exact h.answered
  · obtain rfl := Option.some.inj hv
    constructor
    · intro hp
      rcases passing_of_update hsame.listener hthreads hp with hnew | hold
      · rw [hq'.sending] at hnew
        contradiction
      · exact hpass hold
    · rw [hthreads, Function.update_self]
      exact hsame.fits (hfits (h.free rfl).1)

theorem Sound.inside (h : Sound owner s) (hq : (s.threads t).Replaces)
    (hthreads : u.threads = Function.update s.threads t q') (hq' : q'.Replaces)
    (hlistener : ∀ l ∈ u.listener, l.handler = .receiving ∨ s.listener = some l)
    (haccepted : u.accepted = s.accepted) (hfits : s.Fits (s.threads t) → u.Fits q') :
    Sound owner u := by
  have howner := (h.guarded t).mp hq
  refine ⟨?_, ?_, fun hnone => ?_, fun v hv => ?_⟩
  · rw [hthreads]
    exact h.guarded.moves rfl (iff_of_true hq' hq)
  · intro l hl hok
    rw [haccepted]
    rcases hlistener l hl with hnew | hold
    · rw [hok] at hnew
      contradiction
    · exact h.answered l hold hok
  · rw [howner] at hnone
    contradiction
  · obtain rfl := Option.some.inj (howner.symm.trans hv)
    obtain ⟨hpass, hold⟩ := h.held t howner
    refine ⟨?_, by rw [hthreads, Function.update_self]; exact hfits hold⟩
    rintro (⟨w, hw⟩ | ⟨l, hl, hp⟩)
    · rw [hthreads, Function.update_apply] at hw
      split_ifs at hw
      · rw [hq'.sending] at hw
        contradiction
      · exact hpass (Or.inl ⟨w, hw⟩)
    · rcases hlistener l hl with hnew | hold
      · rw [hnew] at hp
        contradiction
      · exact hpass (Or.inr ⟨l, hold, hp⟩)

theorem Sound.leave (h : Sound owner s) (hsame : Same s u) (hq : (s.threads t).Replaces)
    (hthreads : u.threads = Function.update s.threads t (.send .idle))
    (hstatus : u.status ≠ .connected) (hfits : s.Fits (s.threads t) → s.Linked) :
    Sound none u := by
  have howner := (h.guarded t).mp hq
  obtain ⟨hpass, hold⟩ := h.held t howner
  refine ⟨?_, ?_, fun _ => ⟨?_, fun hc => absurd hc hstatus, fun hp => ?_⟩, fun v hv => ?_⟩
  · rw [hthreads]
    exact h.guarded.release rfl hq Bool.false_ne_true
  · rw [hsame.listener, hsame.accepted]
    exact h.answered
  · exact hsame.linked_iff.mpr (hfits hold)
  · rcases passing_of_update hsame.listener hthreads hp with hnew | hold
    · contradiction
    · exact absurd hold hpass
  · contradiction

theorem Sound.statement {request : Bytes} {outcome : Outcome} (h : Sound owner s)
    (hexclusive : Exclusive s (.step t outcome))
    (hs : s.statement request outcome (s.threads t) = some (u, q')) :
    ∃ owner, Sound owner { u with threads := Function.update s.threads t q' } := by
  obtain ⟨henter, hgate⟩ := hexclusive
  cases Moves.of_statement hs with
  | outside hsame hq hq' hstatus hpass =>
    refine ⟨owner, h.outside ⟨hsame.socket, hsame.listener, hsame.accepted⟩ rfl hq hq' hstatus
      fun hnew => ?_⟩
    obtain ⟨hgates, hconnected⟩ := hpass hnew
    exact ⟨hconnected, hgate hgates hconnected⟩
  | enter hsame hq' hbegins hfits =>
    obtain ⟨hfree, hpass⟩ := henter hbegins
    exact ⟨some t, h.enter ⟨hsame.socket, hsame.listener, hsame.accepted⟩ rfl hq' hfree hpass hfits⟩
  | inside hq hq' hlistener haccepted hfits =>
    refine ⟨owner, h.inside hq rfl hq' hlistener haccepted fun hold => ?_⟩
    cases q' <;> exact hfits hold
  | leave hsame hq hq' hstatus hfits =>
    subst hq'
    exact ⟨none, h.leave ⟨hsame.socket, hsame.listener, hsame.accepted⟩ hq rfl hstatus hfits⟩

theorem Sound.call (h : Sound owner s) {op : Op} (hidle : s.threads t = .send .idle) :
    Sound owner { s with threads := Function.update s.threads t op.phase } := by
  refine h.outside ⟨rfl, rfl, rfl⟩ rfl (by rw [hidle]; exact Bool.false_ne_true) ?_ id
    fun hp => ?_
  · cases op <;> exact Bool.false_ne_true
  · cases op <;> contradiction

end

theorem Sound.listener (h : Sound owner s) (hl : s.listener = some l)
    (hu : u.listener = some l') (hthreads : u.threads = s.threads)
    (hsocket : u.socket = s.socket) (haccepted : s.accepted ⊆ u.accepted)
    (hon : l.on = s.socket → l'.on = s.socket)
    (hok : l'.handler = .ok → ∃ g ∈ u.accepted, l'.on = some g)
    (hstatus : u.status = .connected → s.status = .connected ∨ l.handler = .ok)
    (hpass : l'.handler.sending.passes = true → s.status = .connected ∧ ¬ s.Replacing) :
    Sound owner u := by
  have hgrow : s.Accepted → u.Accepted := by
    rintro ⟨g, hg, hs⟩
    exact ⟨g, haccepted hg, hsocket.trans hs⟩
  have hpassing : u.Passing → s.Passing ∨ s.status = .connected ∧ ¬ s.Replacing := by
    rintro (⟨v, hv⟩ | ⟨l₁, hl₁, hp⟩)
    · rw [hthreads] at hv
      exact Or.inl (Or.inl ⟨v, hv⟩)
    · obtain rfl := Option.some.inj (hu.symm.trans hl₁)
      exact Or.inr (hpass hp)
  have hlinked : s.Linked → u.Linked := by
    intro hlinked l₁ hl₁
    obtain rfl := Option.some.inj (hu.symm.trans hl₁)
    exact (hon (hlinked l hl)).trans hsocket.symm
  refine ⟨?_, ?_, fun howner => ?_, fun v hv => ?_⟩
  · rw [hthreads]
    exact h.guarded
  · intro l₁ hl₁
    obtain rfl := Option.some.inj (hu.symm.trans hl₁)
    exact hok
  · obtain ⟨hold, hgate, hnopass⟩ := h.free howner
    refine ⟨hlinked hold, fun hc => hgrow ?_, fun hp => hgrow ?_⟩
    · rcases hstatus hc with hc | hok
      · exact hgate hc
      · -- the answer came on the socket that is still open
        obtain ⟨g, hg, hlg⟩ := h.answered l hl hok
        exact ⟨g, hg, (hold l hl).symm.trans hlg⟩
    · rcases hpassing hp with hp | ⟨hc, -⟩
      · exact hnopass hp
      · exact hgate hc
  · obtain ⟨hnot, hfits⟩ := h.held v hv
    constructor
    · intro hp
      rcases hpassing hp with hp | ⟨-, hfree⟩
      · exact hnot hp
      · exact hfree ⟨v, (h.guarded v).mpr hv⟩
    · rw [hthreads]
      cases hphase : s.threads v with
      | release c =>
        rw [hphase] at hfits
        rw [show s.listener = none from hfits] at hl
        contradiction
      | listens => trivial
      | _ =>
        rw [hphase] at hfits
        exact hlinked hfits

theorem Sound.handle (h : Sound owner s) (hl : s.listener = some l) {s' : State θ}
    {handler : Handler} (hexclusive : l.handler.sending.gates = true → s.status = .connected →
      ¬ s.Replacing)
    (hs : s.handles l.handler = some (s', handler)) : Sound owner (s'.listening handler l) := by
  cases hhandler : l.handler with
  | receiving | ended =>
    rw [hhandler] at hs
    contradiction
  | ok =>
    rw [hhandler] at hs
    obtain ⟨rfl, rfl⟩ := Prod.mk.inj (Option.some.inj hs)
    exact h.listener hl rfl rfl rfl (fun _ => id) id (fun hok => by contradiction)
      (fun _ => Or.inr hhandler) fun hp => by contradiction
  | refused =>
    rw [hhandler] at hs
    obtain ⟨rfl, rfl⟩ := Prod.mk.inj (Option.some.inj hs)
    exact h.listener hl rfl rfl rfl (fun _ => id) (fun _ => rfl) (fun hok => by contradiction)
      (fun hc => by contradiction) fun hp => by contradiction
  | callback sending =>
    rw [hhandler] at hs hexclusive
    cases sending with
    | idle =>
      obtain ⟨rfl, rfl⟩ := Prod.mk.inj (Option.some.inj hs)
      exact h.listener hl rfl rfl rfl (fun _ => id) (fun _ => rfl) (fun hok => by contradiction)
        Or.inl fun hp => by contradiction
    | gate p | pass p | count =>
      simp only [State.handles] at hs
      obtain ⟨⟨s₁, sending'⟩, hsend, hr⟩ := Option.map_eq_some_iff.mp hs
      obtain ⟨rfl, rfl⟩ := Prod.mk.inj hr
      obtain ⟨hsame, hstatus, hthreads, hpass⟩ := sends_same hsend
      refine h.listener hl rfl hthreads hsame.socket
        (by rw [← hsame.accepted]; exact List.Subset.refl _) id (fun hok => by contradiction)
        (fun hc => Or.inl (hstatus.symm.trans hc)) fun hnew => ?_
      obtain ⟨hgate, hconnected⟩ := hpass hnew
      exact ⟨hconnected, hexclusive hgate hconnected⟩

theorem Sound.step [DecidableEq θ] {request : Bytes} {e : Event θ} (h : Sound owner s)
    (hexclusive : Exclusive s e) (hs : Step request s e u) : ∃ owner, Sound owner u := by
  unfold Step at hs
  cases e with
  | call t op =>
    obtain ⟨hidle, hr⟩ := Option.ite_none_right_eq_some.mp hs
    rw [← Option.some.inj hr]
    exact ⟨owner, h.call hidle⟩
  | step t outcome =>
    obtain ⟨⟨s', q'⟩, hstatement, rfl⟩ := Option.map_eq_some_iff.mp hs
    exact h.statement hexclusive hstatement
  | receive frame =>
    simp only [State.advance] at hs
    split at hs
    next g hl =>
      rw [← Option.some.inj hs]
      refine ⟨owner, h.listener hl rfl rfl rfl ?_ id ?_ Or.inl fun hp => ?_⟩
      · split_ifs
        · exact List.subset_cons_self _ _
        · exact fun _ => id
      · intro hok
        cases frame with
        | resultOK => exact ⟨g, List.mem_cons_self, rfl⟩
        | connectionRefused | other => contradiction
      · cases frame <;> contradiction
    next => contradiction
  | handle =>
    obtain ⟨l, hl, hr⟩ := Option.bind_eq_some_iff.mp hs
    obtain ⟨⟨s', handler⟩, hhandles, rfl⟩ := Option.map_eq_some_iff.mp hr
    exact ⟨owner, h.handle hl (hexclusive l hl) hhandles⟩
  | answer p | hangUp =>
    simp only [State.advance] at hs
    split at hs
    next on hl =>
      rw [← Option.some.inj hs]
      exact ⟨owner, h.listener hl rfl rfl rfl (fun _ => id) id (fun hok => by contradiction) Or.inl
        fun hp => by contradiction⟩
    next => contradiction

/-- In a run in which the calls that replace the socket are exclusive, every packet that is
passed on goes to an accepted socket that nobody is closing. -/
theorem gate_holds [DecidableEq θ] (request : Bytes) (es : List (Event θ))
    (hexclusive : ∀ fs t e, fs ++ [e] <+: es → Run (Step request) State.initial fs t →
      Exclusive t e) (fs : List (Event θ)) (e : Event θ) (hfs : fs ++ [e] <+: es) (t u : State θ)
    (run : Run (Step request) State.initial fs t) (hs : Step request t e u) (call : Call)
    (hcall : u.calls = t.calls ++ [call]) (hprotocol : call.protocol = swiftRobotPacketProtocol) :
    t.Accepted ∧ t.Kept := by
  have hsound : ∃ owner, Sound owner t := by
    refine Run.history_invariant_of_takes (I := fun _ t => ∃ owner, Sound owner t)
      ⟨none, Sound.initial⟩ (fun gs t e u hgs run hs h => ?_)
      ((List.prefix_append fs [e]).trans hfs) run
    obtain ⟨owner, h⟩ := h
    exact h.step (hexclusive gs t e hgs run) hs
  obtain ⟨owner, h⟩ := hsound
  obtain ⟨hfree, haccepted⟩ := h.passing (passing_of_calls hs hcall hprotocol)
  exact ⟨haccepted, kept_of_not_replacing hfree⟩

end

instance {θ : Type} [Fintype θ] (s : State θ) (e : Event θ) : Decidable (Exclusive s e) :=
  match e with
  | .step _ _ => inferInstanceAs (Decidable ((_ ∨ _ ∧ _ → ¬ _ ∧ ¬ _) ∧ (_ → _ → ¬ _)))
  | .handle => inferInstanceAs (Decidable (∀ l ∈ s.listener, _ → _ → ¬ _))
  | .call _ _ | .receive _ | .answer _ | .hangUp => isTrue trivial

section

def first : Fin 2 := ⟨0, Nat.zero_lt_two⟩
def second : Fin 2 := ⟨1, Nat.one_lt_two⟩

def start : List (Event (Fin 2)) :=
  .call first .startConnection :: [.success, .success, .failure, .success, .success, .success,
    .success, .success].map (Event.step first)

def passOn : Event (Fin 2) := .step second .success

def acceptedFirst : List (Event (Fin 2)) :=
  start ++ [.receive .resultOK, .handle, .handle, .call second (.send (.send .message [])),
    .step second .success]

theorem gate_holds_acceptedFirst : ∃ t u : State (Fin 2),
    Run (Step []) State.initial acceptedFirst t ∧ Step [] t passOn u ∧
      u.calls = t.calls ++ [.send swiftRobotPacketProtocol PacketType.message.code 2 []] ∧
      t.Accepted ∧ t.Kept := by
  have hend : ∃ t ∈ acceptedFirst.foldlM (State.advance []) State.initial,
      ∃ u ∈ t.advance [] passOn,
        u.calls = t.calls ++ [.send swiftRobotPacketProtocol PacketType.message.code 2 []] := by
    decide +kernel
  have hchecked : ((acceptedFirst ++ [passOn]).foldlM
      (fun s e => if Exclusive s e then s.advance [] e else none) State.initial).isSome := by
    decide +kernel
  obtain ⟨t, ht, u, hu, hcalls⟩ := hend
  have run : Run (Step []) State.initial acceptedFirst t := Run.iff_foldlM.mpr ht
  exact ⟨t, u, run, hu, hcalls, gate_holds [] (acceptedFirst ++ [passOn])
    (fun fs t e hfs run => Run.holds_of_foldlM hchecked hfs run) acceptedFirst
    passOn List.prefix_rfl t u run hu _ hcalls rfl⟩

def abortedFirst : List (Event (Fin 2)) :=
  start ++ [.call first .disconnect, .step first .success, .step first .success,
    .call second (.send (.send .message [])), .step second .success]

theorem gate_opened_by_disconnect : ¬ ∀ (request : Bytes) (es : List (Event (Fin 2)))
    (e : Event (Fin 2)) (t u : State (Fin 2)), Run (Step request) State.initial es t →
      Step request t e u → ∀ call, u.calls = t.calls ++ [call] →
      call.protocol = swiftRobotPacketProtocol → t.Accepted ∧ t.Kept := by
  intro hall
  have hend : ∃ t ∈ abortedFirst.foldlM (State.advance []) State.initial,
      t.accepted = [] ∧ ∃ u ∈ t.advance [] passOn,
        u.calls = t.calls ++ [.send swiftRobotPacketProtocol PacketType.message.code 2 []] := by
    decide +kernel
  obtain ⟨t, ht, hnone, u, hu, hcalls⟩ := hend
  obtain ⟨⟨g, hg, -⟩, -⟩ := hall [] abortedFirst passOn t u
    (Run.iff_foldlM.mpr ht) hu _ hcalls rfl
  rw [hnone] at hg
  contradiction

end
end SwiftRobot.TunnelGate
