import SwiftRobot.DispatcherRuns

/-!
# Who is in the registry

The handlers look a client up with the subscript operator of the map, which creates what
is missing. So a packet from a peer that never connected puts it into the registry.
-/

namespace SwiftRobot.ClientRegistry
open ByteWords PacketHeaders ClientDispatcher DispatcherRuns

def opens : PacketType → Bool
  | .connect | .connectAck => true
  | _ => false

def Shakes (n : Bytes) : Event → Prop
  | .packet clientid type _ _ => clientid = n ∧ ∃ kind ∈ PacketType.ofCode? type, opens kind = true
  | _ => False

def Completed (n : Bytes) (es : List (Env × Event)) : Prop := ∃ e ∈ es, Shakes n e.2

def expects (kind : PacketType) : Bool := looksUp kind && !opens kind

/-- A packet that expects its client comes from one that has completed the handshake. -/
def Expected (es : List (Env × Event)) : Event → Prop
  | .packet clientid type _ _ =>
    ∀ kind ∈ PacketType.ofCode? type, expects kind = true → Completed clientid es
  | _ => True

section
variable {σ : Type} {es fs : List (Env × Event)} {e : Env × Event} {n : Bytes}
  {lib : Plist.Library} {app : Application σ} {st t u : State σ}

def Registered (es : List (Env × Event)) (st : State σ) : Prop :=
  ∀ n, (st.dispatcher.clients.find? n).isSome → Completed n es

theorem Completed.snoc (h : Completed n es) : Completed n (es ++ [e]) := by
  obtain ⟨f, hf, hn⟩ := h
  exact ⟨f, List.mem_append_left _ hf, hn⟩

theorem completed_snoc_iff : Completed n (es ++ [e]) ↔ Completed n es ∨ Shakes n e.2 := by
  simp only [Completed, List.mem_append, List.mem_singleton, or_and_right, exists_or,
    exists_eq_left]

structure Known (es : List (Env × Event)) (st : State σ) : Prop where
  clients : Registered es st
  waits : ∀ due n, (due, .keepAliveWait n) ∈ st.dispatcher.scheduled → Completed n es

theorem Known.calm (h : Known es st) {d : ClientDispatcher} (hd : Calm st.dispatcher d)
    (ht : t.dispatcher = d) : Known (es ++ [e]) t := by
  constructor
  · intro n hn
    rw [ht, hd.clients] at hn
    exact (h.clients n hn).snoc
  · intro due n hn
    rw [ht, hd.scheduled] at hn
    exact (h.waits due n hn).snoc

theorem find?_setClient_isSome {d d' : ClientDispatcher} {id : Bytes} {c : ExternalClient}
    (hd : Calm (d.setClient id c) d') (hn : (d'.clients.find? n).isSome) :
    n = id ∨ (d.clients.find? n).isSome := by
  rw [hd.clients, setClient, OrderedMap.find?_insert] at hn
  split_ifs at hn with hid
  · exact Or.inl hid
  · exact Or.inr hn

theorem Known.step (h : Known fs t) (hexpected : Expected fs e.2) (hs : Step lib app t e u) :
    Known (fs ++ [e]) u := by
  obtain ⟨env, event⟩ := e
  obtain ⟨-, -, -, heffect⟩ := Step.effect hs
  simp only at hexpected heffect
  generalize hd : u.dispatcher = d at heffect
  cases heffect with
  | calm _ _ hcalm => exact h.calm hcalm hd
  | @noted clientid memory type length kind c d hkind hlooks hcalm _ =>
    have hcompleted : Completed clientid (fs ++ [(env, .packet clientid type length memory)]) := by
      by_cases hopens : opens kind = true
      · exact completed_snoc_iff.mpr (Or.inr ⟨rfl, kind, hkind, hopens⟩)
      · exact (hexpected kind hkind (by simp [expects, hlooks, hopens])).snoc
    constructor
    · intro n hn
      rcases find?_setClient_isSome hcalm (hd ▸ hn) with rfl | hold
      · exact hcompleted
      · exact (h.clients n hold).snoc
    · intro due n hn
      rw [hd, hcalm.scheduled] at hn
      exact (h.waits due n hn).snoc
  | started _ _ _ hcalm =>
    constructor
    · intro n hn
      rw [hd, hcalm.clients] at hn
      exact (h.clients n hn).snoc
    · intro due n hn
      rw [hd, hcalm.scheduled, startKeepAliveCheckCycle_eq, List.mem_append] at hn
      rcases hn with hold | hnew
      · exact (h.waits due n hold).snoc
      · simp [nextCheck] at hnew
  | idle _ _ => exact h.calm (.refl _) hd
  | @checked i ids d₁ _ _ hprobed =>
    constructor
    · intro n hn
      rw [hd, startKeepAliveCheckCycle_eq, hprobed.clients] at hn
      exact (h.clients n hn).snoc
    · intro due n hn
      rw [hd, startKeepAliveCheckCycle_eq, hprobed.scheduled, List.mem_append, List.mem_append] at hn
      rcases hn with (hold | hnew) | hnext
      · exact (h.waits due n hold).snoc
      · -- only clients of the registry are probed
        obtain ⟨id, hid, heq⟩ := List.mem_map.mp hnew
        obtain ⟨-, rfl⟩ : env.now + keepAliveWaitingTime = due ∧ id = n := by
          simpa [recheck] using heq
        exact (h.clients id (hprobed.timedOut id hid).1).snoc
      · simp [nextCheck] at hnext
  | @waited i clientid d hdue _ hcalm _ =>
    have hwaits : Completed clientid fs := by
      obtain ⟨-, due, hentry, -⟩ := State.due?_eq_some.mp hdue
      exact h.waits due clientid (List.mem_of_getElem? hentry)
    constructor
    · intro n hn
      rcases find?_setClient_isSome hcalm (hd ▸ hn) with rfl | hold
      · exact hwaits.snoc
      · exact (h.clients n hold).snoc
    · intro due n hn
      rw [hd, hcalm.scheduled] at hn
      exact (h.waits due n hn).snoc

theorem expected_of_registered (hs : Step lib app t e u) (h : Registered (fs ++ [e]) u) :
    Expected fs e.2 := by
  obtain ⟨env, event⟩ := e
  cases event with
  | packet clientid type length memory =>
    intro kind hkind hexpects
    obtain ⟨hlooks, hopens⟩ : looksUp kind = true ∧ opens kind = false := by
      simpa [expects] using hexpects
    obtain ⟨-, -, -, heffect⟩ := Step.effect hs
    simp only at heffect
    generalize hd : u.dispatcher = d at heffect
    have hsome : (u.dispatcher.clients.find? clientid).isSome := by
      cases heffect with
      | calm hplain _ _ =>
        rw [hplain kind hkind] at hlooks
        contradiction
      | noted _ _ hcalm _ =>
        rw [hd, hcalm.clients, setClient, OrderedMap.find?_insert_self]
        rfl
    refine (completed_snoc_iff.mp (h clientid hsome)).resolve_right ?_
    rintro ⟨-, kind', hkind', hopens'⟩
    rw [Option.mem_def, Option.mem_def.mp hkind, Option.some.injEq] at hkind'
    rw [← hkind', hopens] at hopens'
    contradiction
  | _ => trivial

/-- In a run every client of the registry has connected, at every moment, exactly when each
packet that expects its client comes from one that has. -/
theorem registered_iff (lib : Plist.Library) (app : Application σ) (name : Bytes) (port : UInt16)
    (connection_type : ConnectionType) (s : σ) (es : List (Env × Event)) :
    (∀ fs t, fs <+: es → Run (Step lib app) (.initial name port connection_type s) fs t →
      Registered fs t) ↔
    ∀ fs t e u, fs ++ [e] <+: es → Run (Step lib app) (.initial name port connection_type s) fs t →
      Step lib app t e u → Expected fs e.2 := by
  constructor
  · intro hregistered fs t e u hfs run hs
    exact expected_of_registered hs (hregistered _ u hfs (run.snoc hs))
  · intro hexpected fs t hfs run
    have hstart : Known [] (State.initial name port connection_type s) :=
      ⟨fun n hn => absurd hn (by simp [State.initial, ClientDispatcher.initial]),
        fun due n hn => absurd hn List.not_mem_nil⟩
    have hknown : Known fs t := Run.history_invariant_of_takes hstart
      (fun fs t e u hfs run hs h => h.step (hexpected fs t e u hfs run hs) hs) hfs run
    exact hknown.clients

end

def strangerRequest : List (Env × Event) :=
  [(at' 1, .packet [] PacketType.keepAliveRequest.code 0 [])]

theorem stranger_registered : ¬ ∀ (lib : Plist.Library) (app : Application Unit) (name : Bytes)
    (port : UInt16) (connection_type : ConnectionType) (es : List (Env × Event)) (st : State Unit),
    Run (Step lib app) (.initial name port connection_type ()) es st → Registered es st := by
  intro hall
  have hend : ∃ st ∈ strangerRequest.foldlM (State.advance silentLibrary silentApp)
      (.initial [66] 5000 .usb ()), (st.dispatcher.clients.find? []).isSome = true := by
    decide +kernel
  obtain ⟨st, hst, hclient⟩ := hend
  obtain ⟨e, he, hshakes⟩ := hall silentLibrary silentApp [66] 5000 .usb strangerRequest st
    (Run.iff_foldlM.mpr hst) [] hclient
  rw [strangerRequest, List.mem_singleton] at he
  obtain ⟨-, kind, hkind, hopens⟩ := he ▸ hshakes
  rw [PacketType.ofCode?_code, Option.mem_def, Option.some.injEq] at hkind
  rw [← hkind] at hopens
  contradiction

end SwiftRobot.ClientRegistry
