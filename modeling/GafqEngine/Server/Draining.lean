import GafqEngine.Server.Accounting
import GafqEngine.Transition.Eventually
import Mathlib.Algebra.Order.BigOperators.Group.List

/-!
# The main thread works everything off

While the epoll thread and the clients rest, the main thread alone comes to a state where
every message that was received is passed to the script and every call that was asked for
is made, whatever the kernel answers, unless a `send` ends the process before. This is so
from every state that lost no item, with fewer items waiting than `int` can count.
-/

namespace GafqEngine

open CLib Gafq Transition

namespace Server

def MainThread : Action → Prop
  | .takeLock => True
  | .runItem => True
  | .send _ => True
  | _ => False

/-- Every message was passed to the script, and every call that was asked for is made. -/
structure Drained (env : Env) (s : Server) : Prop where
  items : s.epoll.delivered.map Delivery.mark = s.dispatched.map fun d => d.queued.mark
  calls : s.asked env = s.sent.map fun e => (e.queued, e.toFd)

def work (env : Env) (s : Server) : ℕ :=
  s.remaining env + (s.waitExecuteList.map fun q => 2 + (requests env q).length).sum

theorem drained_of_idle {env : Env} {s : Server} (hi : Accounted env s)
    (hwait : s.waitExecuteList = []) (htemp : s.tempExecuteList = []) (hsending : s.sending = []) :
    Drained env s := by
  constructor
  · rw [hi.items, htemp, hwait, List.append_nil, List.append_nil, List.map_map]
    rfl
  · rw [hi.calls, hsending, List.map_nil, List.append_nil]

theorem mainThread_progress {env : Env} {s : Server} (hw : Working env s)
    (hgoal : ¬ (s.alive = false ∨ Drained env s)) :
    ∃ a t, MainThread a ∧ step env s a = some t := by
  obtain ⟨halive, hdrained⟩ := not_or.mp hgoal
  rw [Bool.not_eq_false] at halive
  rcases exists_step hw.sound halive with hdone | ⟨-, s', hstep, -⟩ | hsend
  · have hsending : s.sending = [] := by
      cases hs : s.sending with
      | nil => rfl
      | cons p rest => simp [remaining, hs] at hdone
    have htemp : s.tempExecuteList = [] := by
      cases ht : s.tempExecuteList with
      | nil => rfl
      | cons q rest => simp [remaining, ht] at hdone
    exact ⟨.takeLock, s.afterLock, trivial, by simp [step, halive, mainStep, htemp, hsending]⟩
  · exact ⟨.runItem, s', trivial, hstep⟩
  · obtain ⟨s', hstep, -⟩ := hsend .fails
    exact ⟨.send .fails, s', trivial, hstep⟩

theorem work_afterLock_lt {env : Env} {s : Server} (hi : Accounted env s)
    (hlen : s.waitExecuteList.length < 2 ^ 31) (hdrained : ¬ Drained env s)
    (htemp : s.tempExecuteList = []) (hsending : s.sending = []) :
    s.afterLock.work env < s.work env := by
  have hwhole : copyBatch s.waitExecuteList = s.waitExecuteList := copyBatch_of_lt hlen
  cases hwait : s.waitExecuteList with
  | nil => exact absurd (drained_of_idle hi hwait htemp hsending) hdrained
  | cons q rest =>
      have hle : ∀ qs : List Queued, (qs.map fun q => 1 + (requests env q).length).sum ≤
          (qs.map fun q => 2 + (requests env q).length).sum :=
        fun qs => List.sum_le_sum fun q _ => Nat.add_le_add_right (by decide) _
      have hrest := hle rest
      rw [hwait] at hwhole
      simp only [work, remaining, afterLock, hwait, hwhole, htemp, hsending, List.map_cons,
        List.sum_cons, List.map_nil, List.sum_nil, List.length_nil]
      omega

/-- The main thread puts nothing on the queue. -/
theorem work_lt {env : Env} {s s' : Server} {a : Action} (hw : Working env s)
    (hlen : s.waitExecuteList.length < 2 ^ 31) (hdrained : ¬ Drained env s) (ha : MainThread a)
    (h : step env s a = some s') :
    s'.waitExecuteList.length ≤ s.waitExecuteList.length ∧ s'.work env < s.work env := by
  rcases step_cases hw.sound h with
      ⟨-, ⟨c, b, p, rfl, -, rfl⟩ | ⟨b, epoll, out, rfl, -, rfl⟩ | ⟨-, htemp, hsending, rfl⟩ |
      ⟨q, rest, host, -, hsending, htemp, -, rfl⟩ | ⟨outcome, q, call, rest, -, hsending, rfl⟩⟩
  · exact absurd ha id
  · exact absurd ha id
  · exact ⟨Nat.zero_le _, work_afterLock_lt hw.accounted hlen hdrained htemp hsending⟩
  · refine ⟨le_rfl, ?_⟩
    simp only [work, remaining, afterItem, hsending, htemp, List.length_map, List.length_nil,
      List.map_cons, List.sum_cons]
    omega
  · refine ⟨le_rfl, ?_⟩
    simp only [work, remaining, afterSend, hsending, List.length_cons]
    omega

/-- From every state that a run reaches whose lock sections took all, with no more items
waiting than `int` can count, the main thread alone works everything off. -/
theorem eventually_drained (env : Env) (serverSocket : ℤ) (readMsg : SocketMsg)
    (library : Bytes → Value) (stack : List Value) {as : List Action} {s : Server}
    (hok : Meets (step env) TakesAll (start serverSocket readMsg library stack) as)
    (hrun : run (step env) (start serverSocket readMsg library stack) as = some s)
    (hlen : s.waitExecuteList.length < 2 ^ 31) :
    Eventually (step env) MainThread (fun t => t.alive = false ∨ Drained env t) s := by
  apply eventually_of_measure
    (I := fun t => Working env t ∧ t.waitExecuteList.length < 2 ^ 31) (work env)
  · exact fun t ht hgoal => mainThread_progress ht.1 hgoal
  · intro t a u ht hgoal ha h
    obtain ⟨hwait, hlt⟩ := work_lt ht.1 ht.2 (not_or.mp hgoal).2 ha h
    exact ⟨⟨working_step ht.1 (takesAll_of_lt ht.2 a) h, hwait.trans_lt ht.2⟩, hlt⟩
  · exact ⟨working_of_meets hok hrun, hlen⟩

/-- The `send` of the first client's item is still to be made, and the second one's item
waits. -/
theorem eventually_drained_two_requests :
    ∃ s, run (step oneTarget) (start 3 default (fun _ => .nil) [])
        ((twoClients Host.requestText).take 11) = some s ∧
      s.sending.length = 1 ∧ s.waitExecuteList.length = 1 ∧
      Eventually (step oneTarget) MainThread
        (fun t => t.alive = false ∨ Drained oneTarget t) s := by
  obtain ⟨s, hs, hsending, hwait⟩ : ∃ s, run (step oneTarget) (start 3 default (fun _ => .nil) [])
      ((twoClients Host.requestText).take 11) = some s ∧
        s.sending.length = 1 ∧ s.waitExecuteList.length = 1 :=
    exists_of_any_run (by decide +kernel)
  have hok : Meets (step oneTarget) TakesAll (start 3 default (fun _ => .nil) [])
      ((twoClients Host.requestText).take 11) := by decide +kernel
  exact ⟨s, hs, hsending, hwait, eventually_drained oneTarget 3 default _ _ hok hs (by omega)⟩

end Server

end GafqEngine
