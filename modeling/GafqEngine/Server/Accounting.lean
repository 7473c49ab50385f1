import GafqEngine.Server.Survival

/-!
# What becomes of each message

Each call of `ExecGafq` puts one item on the queue; the main thread moves the queue to
its copy, passes the copy to the script item by item, and makes the calls the script
asks for. In every state the calls of `ExecGafq` so far are accounted for: they are the
items passed to the script, then those of the copy, then those of the queue, and the
calls asked for are those made and those still to make, each once and in order. The
loops of `LoopExecute` count in `int`, so this is so after a run exactly when each of its
lock sections found fewer than `2 ^ 31` items waiting.
-/

namespace GafqEngine

open CLib Gafq Transition

def Queued.mark (q : Queued) : Option ConnId × GafqItem := (q.source, q.item)

/-- The item that the call of `ExecGafq` queues, with the connection its data was read
from. -/
def Delivery.mark (d : Delivery) : Option ConnId × GafqItem := (d.conn, d.args.item)

namespace Epoll

/-- A step calls `ExecGafq` at most once. -/
theorem advance_delivered {s s' : Epoll} {a : Action} {out : Option Delivery}
    (h : s.advance a = some (s', out)) : s'.delivered = s.delivered ++ out.toList := by
  cases advances_of_advance h with
  | receive => rfl
  | epollWait => exact (List.append_nil _).symm
  | epollWaitFails => exact (List.append_nil _).symm
  | accept _ _ haccept => exact (List.append_nil _).symm
  | reject => exact (List.append_nil _).symm
  | hangUp => exact (List.append_nil _).symm
  | ignore => exact (List.append_nil _).symm

end Epoll

namespace Server

def asked (env : Env) (s : Server) : List (Queued × ℤ) :=
  s.dispatched.flatMap fun d => (requests env d.queued).map fun call => (d.queued, call.toFd)

/-- The calls of `ExecGafq` and the calls of `send` are accounted for. -/
structure Accounted (env : Env) (s : Server) : Prop where
  items : s.epoll.delivered.map Delivery.mark =
    (s.dispatched.map Dispatch.queued ++ (s.tempExecuteList ++ s.waitExecuteList)).map Queued.mark
  calls : s.asked env =
    s.sent.map (fun e => (e.queued, e.toFd)) ++ s.sending.map fun p => (p.1, p.2.toFd)

/-- `LoopExecute` finds no more items than `int` can count. -/
def TakesAll (s : Server) : Action → Prop
  | .takeLock => s.waitExecuteList.length < 2 ^ 31
  | _ => True

instance (s : Server) : ∀ a, Decidable (TakesAll s a)
  | .takeLock => inferInstanceAs (Decidable (_ < _))
  | .client _ _ => isTrue trivial
  | .epoll _ => isTrue trivial
  | .runItem => isTrue trivial
  | .send _ => isTrue trivial

theorem takesAll_of_lt {s : Server} (h : s.waitExecuteList.length < 2 ^ 31) (a : Action) :
    TakesAll s a := by
  cases a with
  | takeLock => exact h
  | _ => trivial

def placed (s : Server) : ℕ :=
  s.dispatched.length + (s.tempExecuteList.length + s.waitExecuteList.length)

/-- The items that are in no place any more. -/
def lost (s : Server) : ℕ := s.epoll.delivered.length - s.placed

theorem accounted_start (env : Env) (serverSocket : ℤ) (readMsg : SocketMsg)
    (library : Bytes → Value) (stack : List Value) :
    Accounted env (start serverSocket readMsg library stack) := ⟨rfl, rfl⟩

theorem accounted_afterEpoll {env : Env} {s : Server} {epoll : Epoll} {out : Option Delivery}
    {b : Epoll.Action} (hi : Accounted env s) (h : s.epoll.advance b = some (epoll, out)) :
    Accounted env (s.afterEpoll epoll out) := by
  refine ⟨?_, hi.calls⟩
  have hout : (out.map (Queued.ofDelivery epoll.kernel)).toList.map Queued.mark =
      out.toList.map Delivery.mark := by
    cases out with
    | none => rfl
    | some d => rfl
  have hitems := hi.items
  simp only [List.map_append] at hitems
  simp only [afterEpoll, Epoll.advance_delivered h, List.map_append, hitems, hout,
    List.append_assoc]

theorem accounted_afterLock {env : Env} {s : Server} (hi : Accounted env s)
    (hlen : s.waitExecuteList.length < 2 ^ 31) (htemp : s.tempExecuteList = []) :
    Accounted env s.afterLock := by
  refine ⟨?_, hi.calls⟩
  have hwhole : copyBatch s.waitExecuteList = s.waitExecuteList := copyBatch_of_lt hlen
  have hitems := hi.items
  rw [htemp, List.nil_append] at hitems
  simp only [afterLock, hwhole, List.append_nil, hitems]

theorem accounted_afterItem {env : Env} {s : Server} {q : Queued} {rest : List Queued}
    (host : Host) (hi : Accounted env s) (hsending : s.sending = [])
    (htemp : s.tempExecuteList = q :: rest) :
    Accounted env (s.afterItem q rest host (requests env q)) := by
  constructor
  · have hitems := hi.items
    rw [htemp] at hitems
    simp only [afterItem, hitems, List.map_append, List.map_cons, List.map_nil, List.append_assoc,
      List.cons_append, List.nil_append]
  · have hcalls := hi.calls
    rw [hsending, List.map_nil, List.append_nil, asked] at hcalls
    simp only [asked, afterItem, List.flatMap_append, hcalls, List.flatMap_singleton, List.map_map]
    rfl

theorem accounted_afterSend {env : Env} {s : Server} {q : Queued} {call : SendCall}
    {rest : List (Queued × SendCall)} (outcome : SendOutcome) (hi : Accounted env s)
    (hsending : s.sending = (q, call) :: rest) :
    Accounted env (s.afterSend q call rest outcome) := by
  refine ⟨hi.items, ?_⟩
  have hcalls := hi.calls
  rw [hsending] at hcalls
  simp only [afterSend, asked, List.map_append, List.map_cons, List.map_nil, List.append_assoc,
    List.singleton_append]
  exact hcalls

theorem accountedFor_step {env : Env} {s s' : Server} {a : Action} (hs : Sound s)
    (hi : Accounted env s) (ha : TakesAll s a) (h : step env s a = some s') :
    Accounted env s' := by
  rcases step_cases hs h with
      ⟨-, ⟨c, b, p, -, -, rfl⟩ | ⟨b, epoll, out, -, hadv, rfl⟩ | ⟨rfl, htemp, -, rfl⟩ |
      ⟨q, rest, host, -, hsending, htemp, -, rfl⟩ | ⟨outcome, q, call, rest, -, hsending, rfl⟩⟩
  · exact ⟨hi.items, hi.calls⟩
  · exact accounted_afterEpoll hi hadv
  · exact accounted_afterLock hi ha htemp
  · exact accounted_afterItem host hi hsending htemp
  · exact accounted_afterSend outcome hi hsending

structure Working (env : Env) (s : Server) : Prop where
  sound : Sound s
  accounted : Accounted env s

theorem working_start (env : Env) (serverSocket : ℤ) (readMsg : SocketMsg)
    (library : Bytes → Value) (stack : List Value) :
    Working env (start serverSocket readMsg library stack) :=
  ⟨sound_start serverSocket readMsg library stack,
    accounted_start env serverSocket readMsg library stack⟩

theorem working_step {env : Env} {s s' : Server} {a : Action} (hw : Working env s)
    (ha : TakesAll s a) (h : step env s a = some s') : Working env s' :=
  ⟨sound_step hw.sound h, accountedFor_step hw.sound hw.accounted ha h⟩

theorem working_of_meets {env : Env} {serverSocket : ℤ} {readMsg : SocketMsg}
    {library : Bytes → Value} {stack : List Value} {as : List Action} {s : Server}
    (hok : Meets (step env) TakesAll (start serverSocket readMsg library stack) as)
    (hrun : run (step env) (start serverSocket readMsg library stack) as = some s) :
    Working env s :=
  invariant_of_meets (fun _ _ _ hw ha h => working_step hw ha h)
    (working_start env serverSocket readMsg library stack) hok hrun

/-! ### Lost items -/

theorem lost_step {env : Env} {s s' : Server} {a : Action} (hs : Sound s)
    (hle : s.placed ≤ s.epoll.delivered.length) (h : step env s a = some s') :
    s'.placed ≤ s'.epoll.delivered.length ∧ s.lost ≤ s'.lost ∧
      (s'.lost = s.lost ↔ TakesAll s a) := by
  rcases step_cases hs h with
      ⟨-, ⟨c, b, p, rfl, -, rfl⟩ | ⟨b, epoll, out, rfl, hadv, rfl⟩ | ⟨rfl, htemp, -, rfl⟩ |
      ⟨q, rest, host, rfl, -, htemp, -, rfl⟩ | ⟨outcome, q, call, rest, rfl, -, rfl⟩⟩
  · exact ⟨hle, le_rfl, iff_of_true rfl trivial⟩
  · have hmore : (s.afterEpoll epoll out).placed = s.placed + out.toList.length := by
      cases out with
      | none => simp [placed, afterEpoll]
      | some d => simp [placed, afterEpoll, Nat.add_assoc]
    have hdelivered : (s.afterEpoll epoll out).epoll.delivered.length =
        s.epoll.delivered.length + out.toList.length := by
      rw [afterEpoll, Epoll.advance_delivered hadv, List.length_append]
    have hsame : (s.afterEpoll epoll out).lost = s.lost := by
      rw [lost, hmore, hdelivered, Nat.add_sub_add_right, lost]
    exact ⟨by omega, hsame.ge, iff_of_true hsame trivial⟩
  · have hcopy := length_copyBatch_le s.waitExecuteList
    have hwhole := length_copyBatch_eq_iff s.waitExecuteList
    simp only [lost, placed, afterLock, htemp, List.length_nil, TakesAll, ← hwhole] at hle ⊢
    omega
  · have hsame : (s.afterItem q rest host (requests env q)).placed = s.placed := by
      simp only [placed, afterItem, htemp, List.length_append, List.length_cons, List.length_nil]
      omega
    have hlost : (s.afterItem q rest host (requests env q)).lost = s.lost := by
      rw [lost, hsame]
      rfl
    exact ⟨hsame.trans_le hle, hlost.ge, iff_of_true hlost trivial⟩
  · exact ⟨hle, le_rfl, iff_of_true rfl trivial⟩

theorem Accounted.placed_eq {env : Env} {s : Server} (h : Accounted env s) :
    s.placed = s.epoll.delivered.length := by
  have hlen := congrArg List.length h.items
  simp only [List.length_map, List.length_append] at hlen
  rw [placed, hlen]

theorem delivered_le_step {env : Env} {s s' : Server} {a : Action} (hs : Sound s)
    (h : step env s a = some s') : s.epoll.delivered.length ≤ s'.epoll.delivered.length := by
  rcases step_cases hs h with
      ⟨-, ⟨c, b, p, -, -, rfl⟩ | ⟨b, epoll, out, -, hadv, rfl⟩ | ⟨-, -, -, rfl⟩ |
      ⟨q, rest, host, -, -, -, -, rfl⟩ | ⟨outcome, q, call, rest, -, -, rfl⟩⟩
  · exact le_rfl
  · rw [afterEpoll, Epoll.advance_delivered hadv, List.length_append]
    exact Nat.le_add_right _ _
  · exact le_rfl
  · exact le_rfl
  · exact le_rfl

/-- While there are fewer messages than `int` can count, no lock section finds too many. -/
theorem working_of_delivered_lt {env : Env} {serverSocket : ℤ} {readMsg : SocketMsg}
    {library : Bytes → Value} {stack : List Value} {as : List Action} {s : Server}
    (hrun : run (step env) (start serverSocket readMsg library stack) as = some s)
    (hlen : s.epoll.delivered.length < 2 ^ 31) : Working env s := by
  have hinv : Sound s ∧ (s.epoll.delivered.length < 2 ^ 31 → Working env s) := by
    refine invariant
      (I := fun s => Sound s ∧ (s.epoll.delivered.length < 2 ^ 31 → Working env s)) ?_
      ⟨sound_start serverSocket readMsg library stack,
        fun _ => working_start env serverSocket readMsg library stack⟩ hrun
    rintro t a u ⟨hs, hw⟩ h
    refine ⟨sound_step hs h, fun hlt => ?_⟩
    have hworking := hw ((delivered_le_step hs h).trans_lt hlt)
    refine working_step hworking (takesAll_of_lt ?_ a) h
    have hplaced := hworking.accounted.placed_eq
    have hle := delivered_le_step hs h
    rw [placed] at hplaced
    omega
  exact hinv.2 hlen

/-- All messages and all calls are accounted for in the state that a run reaches exactly
when each of its lock sections found no more items than `int` can count; so they are with
fewer messages than that in all. -/
theorem accounted_iff_meets_takesAll (env : Env) (serverSocket : ℤ) (readMsg : SocketMsg)
    (library : Bytes → Value) (stack : List Value) {as : List Action} {s : Server}
    (hrun : run (step env) (start serverSocket readMsg library stack) as = some s) :
    (Accounted env s ↔
        Meets (step env) TakesAll (start serverSocket readMsg library stack) as) ∧
      (s.epoll.delivered.length < 2 ^ 31 → Accounted env s) := by
  have hlost : s.lost = 0 ↔
      Meets (step env) TakesAll (start serverSocket readMsg library stack) as :=
    eq_iff_meets (I := fun s => Sound s ∧ s.placed ≤ s.epoll.delivered.length) lost
      (fun _ _ _ hi _ h => ⟨sound_step hi.1 h, (lost_step hi.1 hi.2 h).1⟩)
      (fun _ _ _ hi _ h => (lost_step hi.1 hi.2 h).2.1)
      (fun _ _ _ hi _ h => (lost_step hi.1 hi.2 h).2.2)
      ⟨sound_start serverSocket readMsg library stack, le_rfl⟩ meets_true hrun
  refine ⟨⟨fun h => hlost.mp ?_, fun hok => (working_of_meets hok hrun).accounted⟩,
    fun hlen => (working_of_delivered_lt hrun hlen).accounted⟩
  rw [lost, h.placed_eq, Nat.sub_self]

theorem accounted_iff_two_requests :
    ∃ s, run (step oneTarget) (start 3 default (fun _ => .nil) [])
        (twoClients Host.requestText) = some s ∧
      (Accounted oneTarget s ↔ Meets (step oneTarget) TakesAll (start 3 default (fun _ => .nil) [])
        (twoClients Host.requestText)) ∧
      (s.epoll.delivered.length < 2 ^ 31 → Accounted oneTarget s) := by
  obtain ⟨s, hs⟩ := exists_run_twoClients
  exact ⟨s, hs, accounted_iff_meets_takesAll oneTarget 3 default _ _ hs⟩

end Server

end GafqEngine
