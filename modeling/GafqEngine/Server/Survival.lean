import GafqEngine.Script.Relay
import GafqEngine.Server.Basic

/-!
# Staying alive

Malformed frames close one connection, and errors of the script are contained, so
the only way a client ends the process is a `send` on a connection that was
reset. A run meets none (`NoDeadTarget`) exactly when the server survives it:
the process is alive, every item taken under the lock was passed to the script or
is still in the batch, and while there is one the main thread can go on.
-/

namespace GafqEngine

open CLib Gafq Transition Script

namespace Server

def remaining (env : Env) (s : Server) : ℕ :=
  s.sending.length + (s.tempExecuteList.map fun q => 1 + (requests env q).length).sum

/-- While the batch is not done, the main thread has a step that brings it on. -/
theorem exists_step {env : Env} {s : Server} (hs : Sound s) (halive : s.alive = true) :
    s.remaining env = 0 ∨
      (s.sending = [] ∧ ∃ s', step env s .runItem = some s' ∧
        s'.remaining env < s.remaining env) ∨
      ∀ outcome, ∃ s', step env s (.send outcome) = some s' ∧
        s'.remaining env < s.remaining env := by
  cases hsending : s.sending with
  | cons p rest =>
      refine Or.inr (Or.inr fun outcome => ⟨s.afterSend p.1 p.2 rest outcome, ?_, ?_⟩)
      · simp [step, halive, mainStep, hsending]
      · simp [remaining, afterSend, hsending]
  | nil =>
      cases htemp : s.tempExecuteList with
      | nil => exact Or.inl (by simp [remaining, hsending, htemp])
      | cons q rest =>
          have hq : Pending s.epoll.kernel q := hs.pending q (by simp [items, htemp])
          obtain ⟨host, hrun, -, hcalls⟩ := runItem_pending env hs.ready hq
          refine Or.inr (Or.inl ⟨rfl, s.afterItem q rest host (requests env q), ?_, ?_⟩)
          · simp [step, halive, mainStep, hsending, htemp, hrun, hcalls]
          · simp only [remaining, afterItem, hsending, htemp, List.length_map, List.length_nil,
              List.map_cons, List.sum_cons]
            omega

end Server

end GafqEngine
