import GafqEngine.EpollLoop.Inbound
import GafqEngine.Kernel.LifeCycle

/-!
# The descriptors of the loop

The loop works on the batch of one `epoll_wait` while its own calls close and open
numbers. Each event of the rest is for a number that is still the one it was waited
for (`Tracked`): a number is closed in its own event only, and `accept` gives out
numbers that are not in use. `LifeCycle` collects what follows for the calls that a
step makes, from any state that a run reaches.
-/

namespace GafqEngine

open CLib SocketMsg Transition

def SysCall.OnClient (k : Kernel) : SysCall → Prop
  | .accept _ => True
  | .read fd conn _ _ => ∃ c, conn = some c ∧ k.IsClient fd c
  | .close fd conn => ∃ c, conn = some c ∧ k.IsClient fd c

namespace Epoll

/-- The event ends the connection: its header read returns nothing or fails, or gives a
header that is rejected, or the event is an error with nothing to read. -/
def EndsClient (k : Kernel) (ev : EpollEvent) (ch : Choices) : Prop :=
  (ev.epollin = true ∧ ∃ header k', k.read ev.fd headerLength ch.header = some (header, k') ∧
      (header.count ≤ 0 ∨ parseHeader header.stored = none)) ∨
    (ev.epollin = false ∧ ev.epollerr = true)

def Ends (s : Epoll) (a : Action) (c : ConnId) : Prop :=
  ∃ ch ev rest, a = .handle ch ∧ s.batch = ev :: rest ∧ s.kernel.names ev.fd = some c ∧
    EndsClient s.kernel ev ch

structure Tracked (s : Epoll) : Prop where
  kernel : s.kernel.Sound
  nodup : (s.batch.map EpollEvent.fd).Nodup
  registered : ∀ ev ∈ s.batch, s.kernel.registered ev.fd = true

/-- What the next step does to descriptors, from a state with this history: it reads
from and closes clients only, it closes exactly the connection that its event ends, and
what it enqueues is from a connection that was not closed. No connection was closed
twice, and the server socket was not closed. -/
structure LifeCycle (s : Epoll) : Prop where
  calls : ∀ a s' out, s.advance a = some (s', out) →
    ∃ new, s'.kernel.calls = s.kernel.calls ++ new ∧ ∀ call ∈ new, call.OnClient s.kernel
  closes : ∀ a s' out c, s.advance a = some (s', out) →
    (c ∈ s'.kernel.closed ↔ c ∈ s.kernel.closed ∨ s.Ends a c)
  enqueues : ∀ a s' d, s.advance a = some (s', some d) →
    ∃ c, d.conn = some c ∧ c ∉ s'.kernel.closed
  closed_nodup : s.kernel.closed.Nodup
  server_open : ∀ conn, .close s.kernel.serverSocket conn ∉ s.kernel.calls

theorem Tracked.isClient {s : Epoll} (hs : Tracked s) {ev : EpollEvent} {rest : List EpollEvent}
    (hbatch : s.batch = ev :: rest) (hclient : ev.fd ≠ s.kernel.serverSocket) :
    ∃ c, s.kernel.IsClient ev.fd c :=
  hs.kernel.isClient (hs.registered ev (hbatch ▸ List.mem_cons_self)) hclient

/-- The rest of the batch, after a step that keeps its numbers in the epoll set. -/
theorem Tracked.rest {s s' : Epoll} (hs : Tracked s) {ev : EpollEvent} {rest : List EpollEvent}
    (hbatch : s.batch = ev :: rest) (hrest : s'.batch = rest) (hkernel : s'.kernel.Sound)
    (hregistered : ∀ fd, fd ≠ ev.fd → s.kernel.registered fd = true →
      s'.kernel.registered fd = true) : Tracked s' := by
  have hnodup := hs.nodup
  rw [hbatch, List.map_cons, List.nodup_cons] at hnodup
  refine ⟨hkernel, hrest ▸ hnodup.2, ?_⟩
  intro ev' hev'
  rw [hrest] at hev'
  refine hregistered ev'.fd ?_ (hs.registered ev' (hbatch ▸ List.mem_cons_of_mem ev hev'))
  exact fun hfd => hnodup.1 (hfd ▸ List.mem_map_of_mem hev')

theorem tracked_start (serverSocket : ℤ) (peers : ConnId → Peer) (readMsg : SocketMsg) :
    Tracked (start serverSocket peers readMsg) :=
  ⟨Kernel.sound_start serverSocket peers, List.nodup_nil, fun _ h => nomatch h⟩

theorem tracked_step {s s' : Epoll} {a : Action} (hs : Tracked s) (h : s.step a = some s') :
    Tracked s' := by
  obtain ⟨out, hadv⟩ := advances_of_step h
  cases hadv with
  | epollWait hbatch hready => exact ⟨hs.kernel, hready.2.1, hready.2.2⟩
  | epollWaitFails => exact ⟨hs.kernel, hs.nodup, hs.registered⟩
  | accept hbatch _ haccept =>
      refine hs.rest hbatch rfl (Kernel.sound_accept hs.kernel haccept) ?_
      intro fd _ h
      apply Kernel.registered_epollCtlAdd
      rw [Kernel.accept_registered haccept]
      exact h
  | reject hbatch hclient _ hheader =>
      obtain ⟨c, hc⟩ := hs.isClient hbatch hclient
      have hnames := (congrFun (Kernel.read_names hheader) _).trans hc.names
      refine hs.rest hbatch rfl (Kernel.sound_close (Kernel.sound_read hs.kernel hheader) hnames) ?_
      intro fd hfd h
      rw [Kernel.registered_close _ hfd, Kernel.read_registered hheader]
      exact h
  | receive hbatch _ _ hheader _ _ hbody =>
      refine hs.rest hbatch rfl (Kernel.sound_read (Kernel.sound_read hs.kernel hheader) hbody) ?_
      intro fd _ h
      rw [Kernel.read_registered hbody, Kernel.read_registered hheader]
      exact h
  | hangUp hbatch hclient =>
      obtain ⟨c, hc⟩ := hs.isClient hbatch hclient
      refine hs.rest hbatch rfl (Kernel.sound_close hs.kernel hc.names) ?_
      intro fd hfd h
      rw [Kernel.registered_close _ hfd]
      exact h
  | ignore hbatch => exact hs.rest hbatch rfl hs.kernel fun _ _ h => h

theorem ends_handle_iff {s : Epoll} {ev : EpollEvent} {rest : List EpollEvent} {ch : Choices}
    {c : ConnId} (hbatch : s.batch = ev :: rest) :
    Ends s (.handle ch) c ↔ s.kernel.names ev.fd = some c ∧ EndsClient s.kernel ev ch := by
  constructor
  · rintro ⟨ch', ev', rest', hch, hbatch', hnames, hends⟩
    obtain ⟨rfl, -⟩ := List.cons.inj (hbatch.symm.trans hbatch')
    obtain rfl := Action.handle.inj hch
    exact ⟨hnames, hends⟩
  · rintro ⟨hnames, hends⟩
    exact ⟨ch, ev, rest, rfl, hbatch, hnames, hends⟩

theorem endsClient_of_rejected {k k' : Kernel} {ev : EpollEvent} {ch : Choices}
    {header : ReadResult} (hin : ev.epollin = true)
    (hheader : k.read ev.fd headerLength ch.header = some (header, k'))
    (hrej : header.stored = [] ∨ parseHeader header.stored = none) : EndsClient k ev ch := by
  refine Or.inl ⟨hin, header, k', hheader, hrej.imp_left fun hempty => ?_⟩
  exact not_lt.mp fun hpos => header.count_pos_iff.mp hpos hempty

theorem not_endsClient_of_accepted {k k' : Kernel} {ev : EpollEvent} {ch : Choices}
    {header : ReadResult} {n : ℕ} (hin : ev.epollin = true)
    (hheader : k.read ev.fd headerLength ch.header = some (header, k'))
    (hne : header.stored ≠ []) (hparse : parseHeader header.stored = some n) :
    ¬ EndsClient k ev ch := by
  rintro (⟨-, header', k'', hheader', hrej⟩ | ⟨hin', -⟩)
  · obtain ⟨rfl, -⟩ := Prod.mk.inj (Option.some.inj (hheader.symm.trans hheader'))
    rcases hrej with hcount | hnone
    · exact absurd (header.count_pos_iff.mpr hne) (not_lt.mpr hcount)
    · rw [hparse] at hnone
      cases hnone
  · exact absurd hin (by simp [hin'])

/-- The calls of a step are made for the client of its event. -/
theorem onClient_of_advances {s s' : Epoll} {a : Action} {out : Option Delivery}
    (hs : Tracked s) (h : Advances s a s' out) :
    ∃ new, s'.kernel.calls = s.kernel.calls ++ new ∧ ∀ call ∈ new, call.OnClient s.kernel := by
  cases h with
  | epollWait => exact ⟨[], (List.append_nil _).symm, List.forall_mem_nil _⟩
  | epollWaitFails => exact ⟨[], (List.append_nil _).symm, List.forall_mem_nil _⟩
  | @accept ch _ _ _ _ _ haccept =>
      refine ⟨[.accept ch.accepted], ?_, List.forall_mem_singleton.mpr trivial⟩
      exact (Kernel.epollCtlAdd_calls _ _).trans (Kernel.accept_calls haccept)
  | @reject ch ev _ header _ _ hbatch hclient _ hheader =>
      obtain ⟨c, hc⟩ := hs.isClient hbatch hclient
      refine ⟨[.read ev.fd (some c) headerLength header, .close ev.fd (some c)], ?_, ?_⟩
      · rw [Kernel.close_calls, Kernel.read_calls hheader, Kernel.read_names hheader, hc.names,
          List.append_assoc, List.singleton_append]
      · exact List.forall_mem_cons.mpr ⟨⟨c, rfl, hc⟩, List.forall_mem_singleton.mpr ⟨c, rfl, hc⟩⟩
  | @receive ch ev _ header body _ _ n _ hbatch hclient _ hheader _ _ hbody =>
      obtain ⟨c, hc⟩ := hs.isClient hbatch hclient
      refine ⟨[.read ev.fd (some c) headerLength header, .read ev.fd (some c) (n + 1) body], ?_, ?_⟩
      · rw [Kernel.read_calls hbody, Kernel.read_calls hheader, Kernel.read_names hheader,
          hc.names, List.append_assoc, List.singleton_append]
      · exact List.forall_mem_cons.mpr ⟨⟨c, rfl, hc⟩, List.forall_mem_singleton.mpr ⟨c, rfl, hc⟩⟩
  | @hangUp ch ev _ hbatch hclient =>
      obtain ⟨c, hc⟩ := hs.isClient hbatch hclient
      refine ⟨[.close ev.fd (some c)], ?_, List.forall_mem_singleton.mpr ⟨c, rfl, hc⟩⟩
      rw [Kernel.close_calls, hc.names]
  | ignore => exact ⟨[], (List.append_nil _).symm, List.forall_mem_nil _⟩

/-- A step closes the connection of its event if the event ends it, and no other. -/
theorem mem_closed_of_advances {s s' : Epoll} {a : Action} {out : Option Delivery}
    (hs : Tracked s) (h : Advances s a s' out) (c : ConnId) :
    c ∈ s'.kernel.closed ↔ c ∈ s.kernel.closed ∨ s.Ends a c := by
  cases h with
  | epollWait => exact (or_iff_left fun ⟨_, _, _, ha, _⟩ => nomatch ha).symm
  | epollWaitFails => exact (or_iff_left fun ⟨_, _, _, ha, _⟩ => nomatch ha).symm
  | accept hbatch hserver haccept =>
      rw [Kernel.closed_accept haccept, ends_handle_iff hbatch, hserver, hs.kernel.server]
      exact (or_iff_left fun hends => nomatch hends.1).symm
  | reject hbatch _ hin hheader hrej =>
      rw [Kernel.closed_close, Kernel.closed_read hheader, Kernel.read_names hheader,
        ends_handle_iff hbatch, and_iff_left (endsClient_of_rejected hin hheader hrej),
        List.mem_append, Option.mem_toList]
  | receive hbatch _ hin hheader hne hparse hbody =>
      rw [Kernel.closed_read hbody, Kernel.closed_read hheader, ends_handle_iff hbatch]
      exact (or_iff_left fun hends =>
        not_endsClient_of_accepted hin hheader hne hparse hends.2).symm
  | @hangUp ch ev _ hbatch _ hin herr =>
      have hends : EndsClient s.kernel ev ch := Or.inr ⟨hin, herr⟩
      rw [Kernel.closed_close, ends_handle_iff hbatch, and_iff_left hends, List.mem_append,
        Option.mem_toList]
  | ignore hbatch _ hin herr =>
      rw [ends_handle_iff hbatch]
      refine (or_iff_left ?_).symm
      rintro ⟨-, ⟨hin', -⟩ | ⟨-, herr'⟩⟩
      · exact absurd hin' (by simp [hin])
      · exact absurd herr' (by simp [herr])

theorem enqueues_of_advances {s s' : Epoll} {a : Action} {d : Delivery}
    (hs : Tracked s) (h : Advances s a s' (some d)) :
    ∃ c, d.conn = some c ∧ c ∉ s'.kernel.closed := by
  cases h with
  | receive hbatch hclient _ hheader _ _ hbody =>
      obtain ⟨c, hc⟩ := hs.isClient hbatch hclient
      refine ⟨c, ?_, ?_⟩
      · rw [delivery, Kernel.read_names hbody, Kernel.read_names hheader, hc.names]
      · rw [Kernel.closed_read hbody, Kernel.closed_read hheader]
        exact hc.notClosed

/-- In every state that a run reaches, descriptors are used and closed as their life
cycle has it. -/
theorem lifeCycle_of_run (serverSocket : ℤ) (peers : ConnId → Peer) (readMsg : SocketMsg)
    {as : List Action} {s : Epoll}
    (hrun : run step (start serverSocket peers readMsg) as = some s) : LifeCycle s := by
  have hs : Tracked s := invariant (fun _ _ _ hs h => tracked_step hs h)
    (tracked_start serverSocket peers readMsg) hrun
  exact {
    calls := fun _ _ _ h => onClient_of_advances hs (advances_of_advance h)
    closes := fun _ _ _ c h => mem_closed_of_advances hs (advances_of_advance h) c
    enqueues := fun _ _ _ h => enqueues_of_advances hs (advances_of_advance h)
    closed_nodup := hs.kernel.closed_nodup
    server_open := hs.kernel.server_open }

/-- Two clients send a frame each and close; the number of the first is given out again. -/
def twoEnds : List Action :=
  [.epollWait [{ fd := 3, epollin := true, epollerr := false }], .handle { accepted := some 5 },
    .epollWait [{ fd := 3, epollin := true, epollerr := false }], .handle { accepted := some 6 },
    .epollWait [{ fd := 5, epollin := true, epollerr := false },
      { fd := 6, epollin := true, epollerr := false }],
    .handle { header := .upTo 4, body := .upTo 1 }, .handle { header := .upTo 4, body := .upTo 1 },
    .epollWait [{ fd := 5, epollin := true, epollerr := false },
      { fd := 3, epollin := true, epollerr := false },
      { fd := 6, epollin := true, epollerr := true }],
    .handle { header := .upTo 4 }, .handle { accepted := some 5 }, .handle { header := .upTo 4 }]

theorem lifeCycle_two_clients :
    ∃ s, run step (start 3 (fun _ => { unread := ascii "   1a", eof := true, reset := false })
        default) twoEnds = some s ∧
      s.kernel.closed = [0, 1] ∧ LifeCycle s := by
  obtain ⟨s, hs, hclosed⟩ : ∃ s,
      run step (start 3 (fun _ => { unread := ascii "   1a", eof := true, reset := false })
        default) twoEnds = some s ∧ s.kernel.closed = [0, 1] :=
    exists_of_any_run (by decide +kernel)
  exact ⟨s, hs, hclosed, lifeCycle_of_run 3 _ default hs⟩

end Epoll

end GafqEngine
