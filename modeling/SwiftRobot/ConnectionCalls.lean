import SwiftRobot.ConnectionThreads

/-!
# One call on a connection at a time

A call that nothing comes between, and a Result that is handled at once, do to the
connection what their functions do in one step.
-/

namespace SwiftRobot.ConnectionCalls
open ByteWords PacketHeaders Connection ConnectionThreads

section
variable {θ : Type} [DecidableEq θ] {request : Bytes} {s : State θ} {c : Connection} {t : θ}

structure Shows (s : State θ) (c : Connection) : Prop where
  usbmux : c.usbmux = true
  status : s.status = c.status
  tag : s.tag = c.tag
  calls : s.calls = c.client.calls

def sent : Packet → Connection → Connection
  | .send type data => Connection.send type data
  | .send2 type data1 data2 => Connection.send2 type data1 data2

theorem sent_eq (p : Packet) (c : Connection) : sent p c =
    if c.status = .connected then
      { c with client := c.client.call (p.call c.tag), tag := c.tag + 1 }
    else c := by
  cases p <;> rfl

theorem update_idle (hidle : s.threads t = .send .idle) :
    Function.update s.threads t (.send .idle) = s.threads := by
  rw [← hidle, Function.update_eq_self]

theorem send_alone (h : Shows s c) (hidle : s.threads t = .send .idle) (p : Packet) :
    ∃ es u, Run (Step request) s es u ∧ u.threads = s.threads ∧ Shows u (sent p c) := by
  have hback := update_idle hidle
  by_cases hgate : s.status = .connected
  · have hrun : [Event.call t (.send p), .step t .success, .step t .success,
        .step t .success].foldlM (State.advance request) s =
          some { s with calls := s.calls ++ [p.call s.tag], tag := s.tag + 1 } := by
      simp [State.advance, hidle, Op.phase, State.statement, State.sends, hgate, hback]
    refine ⟨_, _, Run.iff_foldlM.mpr hrun, rfl, ?_⟩
    rw [sent_eq, if_pos (h.status.symm.trans hgate)]
    refine ⟨h.usbmux, h.status, congrArg (· + 1) h.tag, ?_⟩
    rw [Client.call, ← h.calls, ← h.tag]
  · have hrun : [Event.call t (.send p), .step t .success].foldlM (State.advance request) s =
        some s := by
      simp [State.advance, hidle, Op.phase, State.statement, State.sends, hgate, hback]
    refine ⟨_, _, Run.iff_foldlM.mpr hrun, rfl, ?_⟩
    have hclosed : ¬ c.status = .connected := h.status ▸ hgate
    rw [sent_eq, if_neg hclosed]
    exact h

theorem close_alone (request : Bytes) {caller : Caller} (hphase : s.threads t = .shutdown caller)
    (hlistener : ∀ l ∈ s.listener, l.handler = .receiving ∨ l.handler = .ended) :
    ∃ es, Run (Step request) s es { s with
      listener := none, socket := none, threads := Function.update s.threads t caller.next } := by
  have hclose (es : List (Event θ)) (hrun : es.foldlM (State.advance request) s =
      some { s with
        listener := none, socket := none, threads := Function.update s.threads t caller.next }) :
      ∃ es, Run (Step request) s es { s with
        listener := none, socket := none, threads := Function.update s.threads t caller.next } :=
    ⟨es, Run.iff_foldlM.mpr hrun⟩
  cases hl : s.listener with
  | none =>
    apply hclose (List.replicate 3 (.step t .success))
    simp [List.replicate, State.advance, State.statement, hphase, State.Joinable, hl]
  | some l =>
    obtain ⟨on, handler⟩ := l
    rcases hlistener _ hl with hreceiving | hended
    · obtain rfl : handler = .receiving := hreceiving
      apply hclose [.step t .success, .hangUp, .step t .success, .step t .success]
      simp [State.advance, State.statement, hphase, State.Joinable, hl]
    · obtain rfl : handler = .ended := hended
      apply hclose (List.replicate 3 (.step t .success))
      simp [List.replicate, State.advance, State.statement, hphase, State.Joinable, hl]

theorem disconnect_alone (h : Shows s c) (hidle : s.threads t = .send .idle)
    (hlistener : ∀ l ∈ s.listener, l.handler = .receiving ∨ l.handler = .ended) :
    ∃ es u, Run (Step request) s es u ∧ u.threads = s.threads ∧ Shows u c.disconnect.1 := by
  have hback := update_idle hidle
  by_cases hstatus : s.status = .idle
  · have hrun : [Event.call t .disconnect, .step t .success, .step t .success].foldlM
        (State.advance request) s = some { s with status := .idle } := by
      simp [State.advance, hidle, Op.phase, State.statement, hstatus, hback]
    refine ⟨_, _, Run.iff_foldlM.mpr hrun, rfl, ?_⟩
    have hdown : ¬ c.status ≠ .idle := not_not.mpr (h.status.symm.trans hstatus)
    rw [Connection.disconnect, if_neg hdown]
    exact ⟨h.usbmux, (not_not.mp hdown).symm, h.tag, h.calls⟩
  · let s₁ : State θ := { s with
      status := .connected, threads := Function.update s.threads t (.shutdown .disconnect) }
    have hphase : s₁.threads t = .shutdown .disconnect := Function.update_self _ _ _
    have hbegin : [Event.call t .disconnect, .step t .success, .step t .success].foldlM
        (State.advance request) s = some s₁ := by
      simp [State.advance, hidle, Op.phase, State.statement, hstatus, s₁]
    obtain ⟨es, hclose⟩ := close_alone request hphase hlistener
    have hend : [Event.step t .success, .step t .success].foldlM (State.advance request)
        { s₁ with
          listener := none
          socket := none
          threads := Function.update s₁.threads t Caller.disconnect.next } =
        some { s with listener := none, socket := none, status := .idle } := by
      simp [State.advance, State.statement, Caller.next, hback, s₁]
    refine ⟨_, _, (Run.iff_foldlM.mpr hbegin).append (hclose.append (Run.iff_foldlM.mpr hend)),
      rfl, ?_⟩
    have hup : c.status ≠ .idle := h.status ▸ hstatus
    rw [Connection.disconnect, if_pos hup]
    exact ⟨h.usbmux, rfl, h.tag, h.calls⟩

theorem startConnection_alone (lib : Plist.Library) (reachable : Bool) (h : Shows s c)
    (hidle : s.threads t = .send .idle)
    (hlistener : ∀ l ∈ s.listener, l.handler = .receiving ∨ l.handler = .ended)
    (hrequest : (c.startConnection lib reachable).1.client.calls =
      c.client.calls ++ [.sendPlist c.tag request]) :
    ∃ es u, Run (Step request) s es u ∧ u.threads = s.threads ∧
      Shows u (c.startConnection lib reachable).1 := by
  have hback := update_idle hidle
  let s₁ : State θ := { s with
    status := .wantingConnection, threads := Function.update s.threads t (.shutdown .connect) }
  have hphase : s₁.threads t = .shutdown .connect := Function.update_self _ _ _
  have hbegin : [Event.call t .startConnection, .step t .success, .step t .success].foldlM
      (State.advance request) s = some s₁ := by
    simp [State.advance, hidle, Op.phase, State.statement, s₁]
  obtain ⟨es, hclose⟩ := close_alone request hphase hlistener
  have hend : (List.replicate 5 (Event.step t .success)).foldlM (State.advance request)
      { s₁ with
        listener := none
        socket := none
        threads := Function.update s₁.threads t Caller.connect.next } =
      some { s with
        status := .connecting
        tag := s.tag + 1
        socket := some s.opened
        opened := s.opened + 1
        listener := some ⟨some s.opened, .receiving⟩
        calls := s.calls ++ [.sendPlist s.tag request] } := by
    simp [List.replicate, State.advance, State.statement, Caller.next, State.Joinable, hback, s₁]
  refine ⟨_, _, (Run.iff_foldlM.mpr hbegin).append (hclose.append (Run.iff_foldlM.mpr hend)),
    rfl, ?_⟩
  rw [← h.calls, ← h.tag] at hrequest
  obtain ⟨plist, hstart⟩ := started_usb lib h.usbmux reachable
  refine ⟨?_, ?_, ?_, hrequest.symm⟩ <;> rw [hstart]
  · exact h.usbmux
  · exact congrArg (· + 1) h.tag

theorem result_alone {g : ℕ} (h : Shows s c) (hlistener : s.listener = some ⟨some g, .receiving⟩) :
    (∃ es u, Run (Step request) s es u ∧ u.threads = s.threads ∧
      Shows u (c.resultReceived usbMuxReplyCodeOK).1) ∧
    ∃ es u, Run (Step request) s es u ∧ u.threads = s.threads ∧
      Shows u (c.resultReceived usbMuxReplyCodeConnectionRefused).1 := by
  constructor
  · have hrun : ∃ u, [Event.receive .resultOK, .handle, .handle].foldlM (State.advance request) s =
        some u ∧ u.threads = s.threads ∧ u.status = .connected ∧ u.tag = s.tag ∧
          u.calls = s.calls := by
      simp [State.advance, hlistener, Frame.handler, State.handles, State.listening]
    obtain ⟨u, hrun, hthreads, hstatus, htag, hcalls⟩ := hrun
    exact ⟨_, u, Run.iff_foldlM.mpr hrun, hthreads, h.usbmux, hstatus, htag.trans h.tag,
      hcalls.trans h.calls⟩
  · have hrun : ∃ u, [Event.receive .connectionRefused, .handle].foldlM (State.advance request) s =
        some u ∧ u.threads = s.threads ∧ u.status = .wantingConnection ∧ u.tag = s.tag ∧
          u.calls = s.calls := by
      simp [State.advance, hlistener, Frame.handler, State.handles, State.listening]
    obtain ⟨u, hrun, hthreads, hstatus, htag, hcalls⟩ := hrun
    exact ⟨_, u, Run.iff_foldlM.mpr hrun, hthreads, h.usbmux, hstatus, htag.trans h.tag,
      hcalls.trans h.calls⟩

end
end SwiftRobot.ConnectionCalls
