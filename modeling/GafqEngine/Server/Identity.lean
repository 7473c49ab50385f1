import GafqEngine.Server.Basic

/-!
# Which client a descriptor names

Items carry descriptor numbers, and wait while the other thread closes and
accepts. A number names the same connection at receipt and later, unless it was
closed and given to a new connection in between: so the identities are kept in a
run exactly when no item meets such a successor (`NoSuccessor`), neither under
its descriptor when it is passed to the script nor under the number of its
request when bytes are taken.
-/

namespace GafqEngine

open CLib Gafq Transition

/-- The descriptor named the connection the data was read from, or none. -/
def Dispatch.Kept (d : Dispatch) : Prop := d.fdConn = d.queued.source ∨ d.fdConn = none

instance (d : Dispatch) : Decidable d.Kept := inferInstanceAs (Decidable (_ ∨ _))

/-- Bytes were taken by the connection that the number of the request named when
it was received, or by none. -/
def Sent.Kept (e : Sent) : Prop := e.takenBy = e.queued.names e.toFd ∨ e.takenBy = none

instance (e : Sent) : Decidable e.Kept := inferInstanceAs (Decidable (_ ∨ _))

namespace Server

/-- No message was attributed or delivered to a client that inherited a number. -/
structure IdentitiesKept (s : Server) : Prop where
  dispatched : ∀ d ∈ s.dispatched, d.Kept
  sent : ∀ e ∈ s.sent, e.Kept

/-- The connection that the number names, or that takes the bytes, was accepted
before the item was received. -/
def NoSuccessor (s : Server) : Action → Prop
  | .runItem => ∀ q rest c, s.tempExecuteList = q :: rest →
      s.epoll.kernel.names q.item.fd = some c → c < q.nextConn
  | .send outcome => ∀ q call rest c, s.sending = (q, call) :: rest →
      s.epoll.kernel.takenBy call.toFd outcome = some c → c < q.nextConn
  | _ => True

def confused (s : Server) : ℕ :=
  s.dispatched.countP (fun d => ¬ d.Kept) + s.sent.countP fun e => ¬ e.Kept

theorem confused_eq_zero_iff (s : Server) : s.confused = 0 ↔ IdentitiesKept s := by
  rw [confused, Nat.add_eq_zero_iff, List.countP_eq_zero, List.countP_eq_zero]
  simp only [decide_eq_true_eq, not_not]
  exact ⟨fun h => ⟨h.1, h.2⟩, fun h => ⟨h.dispatched, h.sent⟩⟩

/-- A connection that is open now had the number at receipt exactly when it was
accepted before. -/
theorem Pending.names_eq_iff {k : Kernel} {q : Queued} (h : Pending k q) {fd : ℤ} {c : ConnId}
    (hc : k.names fd = some c) : q.names fd = some c ↔ c < q.nextConn :=
  ⟨h.known fd c, h.kept fd c hc⟩

theorem dispatch_kept_iff {k : Kernel} {q : Queued} (h : Pending k q) :
    Dispatch.Kept ⟨q, k.names q.item.fd⟩ ↔
      ∀ c, k.names q.item.fd = some c → c < q.nextConn := by
  simp only [Dispatch.Kept, h.source]
  cases hn : k.names q.item.fd with
  | none => simp
  | some c => simp [← h.names_eq_iff hn, eq_comm]

theorem sent_kept_iff {k : Kernel} {q : Queued} (h : Pending k q) (fd : ℤ)
    (outcome : SendOutcome) :
    Sent.Kept ⟨q, fd, k.takenBy fd outcome⟩ ↔
      ∀ c, k.takenBy fd outcome = some c → c < q.nextConn := by
  simp only [Sent.Kept]
  cases hn : k.takenBy fd outcome with
  | none => simp
  | some c => simp [← h.names_eq_iff (Kernel.takenBy_eq_some hn), eq_comm]

theorem confused_step {env : Env} {s s' : Server} {a : Action} (hs : Sound s)
    (h : step env s a = some s') :
    s.confused ≤ s'.confused ∧ (s'.confused = s.confused ↔ NoSuccessor s a) := by
  rcases step_cases hs h with
      ⟨-, ⟨c, b, p, rfl, -, rfl⟩ | ⟨b, epoll, out, rfl, -, rfl⟩ | ⟨rfl, -, -, rfl⟩ |
      ⟨q, rest, host, rfl, -, htemp, -, rfl⟩ | ⟨outcome, q, call, rest, rfl, hsending, rfl⟩⟩
  · simp [confused, NoSuccessor]
  · simp [confused, NoSuccessor, afterEpoll]
  · simp [confused, NoSuccessor, afterLock]
  · have hq : Pending s.epoll.kernel q := hs.pending q (by simp [items, htemp])
    have hkept : Dispatch.Kept ⟨q, s.epoll.kernel.names q.item.fd⟩ ↔
        NoSuccessor s .runItem := by
      rw [dispatch_kept_iff hq]
      constructor
      · intro h p rest' c hp hc
        obtain ⟨rfl, -⟩ := List.cons.inj (htemp.symm.trans hp)
        exact h c hc
      · exact fun h c hc => h q rest c htemp hc
    simp only [confused, afterItem, List.countP_append, List.countP_singleton, ← hkept]
    by_cases hd : Dispatch.Kept ⟨q, s.epoll.kernel.names q.item.fd⟩
    · simp [hd]
    · simp [hd]
  · have hq : Pending s.epoll.kernel q := hs.pending q (by simp [items, hsending])
    have hkept : Sent.Kept ⟨q, call.toFd, s.epoll.kernel.takenBy call.toFd outcome⟩ ↔
        NoSuccessor s (.send outcome) := by
      rw [sent_kept_iff hq]
      constructor
      · intro h p call' rest' c hp hc
        obtain ⟨heq, -⟩ := List.cons.inj (hsending.symm.trans hp)
        obtain ⟨rfl, rfl⟩ := Prod.mk.inj heq
        exact h c hc
      · exact fun h c hc => h q call rest c hsending hc
    simp only [confused, afterSend, List.countP_append, List.countP_singleton, ← hkept]
    by_cases he : Sent.Kept ⟨q, call.toFd, s.epoll.kernel.takenBy call.toFd outcome⟩
    · simp [he]
    · simp [he]

/-- The identities are kept in a run exactly when no item of it met a connection
that was accepted after its receipt. -/
theorem identitiesKept_iff_meets_noSuccessor (env : Env) (serverSocket : ℤ) (readMsg : SocketMsg)
    (library : Bytes → Value) (stack : List Value) {as : List Action} {s : Server}
    (hrun : run (step env) (start serverSocket readMsg library stack) as = some s) :
    IdentitiesKept s ↔
      Meets (step env) NoSuccessor (start serverSocket readMsg library stack) as := by
  rw [← confused_eq_zero_iff]
  exact eq_iff_meets confused (fun _ _ _ hs _ h => sound_step hs h)
    (fun _ _ _ hs _ h => (confused_step hs h).1) (fun _ _ _ hs _ h => (confused_step hs h).2)
    (sound_start serverSocket readMsg library stack)
    meets_true hrun

def noRequests : Env where
  lib := default
  json :=
    { decode := fun _ => .error (.string (ascii "unexpected character"))
      decoded := fun _ _ h => by cases h }
  fresh _ := default

theorem identitiesKept_iff_two_messages :
    ∃ s, run (step oneTarget) (start 3 default (fun _ => .nil) [])
        (twoClients Host.requestText) = some s ∧
      (IdentitiesKept s ↔ Meets (step oneTarget) NoSuccessor (start 3 default (fun _ => .nil) [])
        (twoClients Host.requestText)) := by
  obtain ⟨s, hs⟩ := exists_run_twoClients
  exact ⟨s, hs, identitiesKept_iff_meets_noSuccessor oneTarget 3 default _ _ hs⟩

/-- The client of a waiting message is closed, and another takes its number over. -/
def secondClient : List Action :=
  [.epoll (.epollWait [{ fd := 5, epollin := true, epollerr := false },
      { fd := 3, epollin := true, epollerr := false }]),
    .epoll (.handle { header := .upTo 4 }),
    .epoll (.handle { accepted := some 5 })]

/-- The message of the first client is passed to the script as one of the second. -/
theorem identities_confused_on_reused_number :
    ¬ ∀ (env : Env) (serverSocket : ℤ) (readMsg : SocketMsg) (library : Bytes → Value)
        (stack : List Value) (as : List Action) (s : Server),
      run (step env) (start serverSocket readMsg library stack) as = some s →
      IdentitiesKept s := by
  intro h
  obtain ⟨m, hm⟩ := run_oneMessage noRequests (ascii "a") false (by decide) (by decide)
  obtain ⟨s, hs, q, host, halive, htemp, hsending, hwait, hitem, hsource, hname⟩ : ∃ s,
      run (step noRequests) (received noRequests (ascii "a") false m) secondClient = some s ∧
        ∃ q host, s.alive = true ∧ s.tempExecuteList = [] ∧ s.sending = [] ∧
        s.waitExecuteList = [q] ∧ Host.runItem noRequests s.host q.item = some host ∧
        q.source = some 0 ∧ s.epoll.kernel.names q.item.fd = some 1 :=
    ⟨_, rfl, _, _, rfl, rfl, rfl, rfl, rfl, rfl, rfl⟩
  have hrun := run_append (step noRequests) (start 3 default (fun _ => .nil) [])
    (oneMessage (ascii "a") false) (secondClient ++ [.takeLock, .runItem])
  rw [hm, Option.bind_some, run_append _ (received noRequests (ascii "a") false m), hs,
    Option.bind_some, run_takeLock_runItem halive htemp hsending hwait hitem] at hrun
  have hkept := (h noRequests 3 default _ _ _ _ hrun).dispatched
    ⟨q, s.epoll.kernel.names q.item.fd⟩ (List.mem_append_right _ List.mem_cons_self)
  rw [hname, Dispatch.Kept, hsource] at hkept
  simp at hkept

end Server

end GafqEngine
