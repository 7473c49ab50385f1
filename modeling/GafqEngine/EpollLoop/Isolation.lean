import GafqEngine.EpollLoop.Inbound

/-!
# Isolation of the connections

All connections are read into one message. Every readable client starts with a
`delete_msg`, so what is handed over for a connection is determined by the reads on
that connection alone (`heard`), as long as the bodies leave a zero byte behind them.
Two runs with the same reads on a connection, each with any other connections, events
and initial buffer, hand over the same strings for it.
-/

namespace GafqEngine

open CLib SocketMsg Transition

def SysCall.readOn (c : ConnId) : SysCall → Option ReadResult
  | .read _ conn _ result => if conn = some c then some result else none
  | _ => none

def Kernel.readsOn (k : Kernel) (c : ConnId) : List ReadResult :=
  k.calls.filterMap (SysCall.readOn c)

theorem Kernel.readsOn_read {k k' : Kernel} {fd : ℤ} {count : ℕ} {choice : ReadChoice}
    {r : ReadResult} (h : k.read fd count choice = some (r, k')) (c : ConnId) :
    k'.readsOn c = k.readsOn c ++ if k.names fd = some c then [r] else [] := by
  rw [readsOn, read_calls h, List.filterMap_append, readsOn]
  by_cases hc : k.names fd = some c
  · simp [SysCall.readOn, hc]
  · simp [SysCall.readOn, hc]

theorem Kernel.readsOn_close (k : Kernel) (fd : ℤ) (c : ConnId) :
    (k.close fd).readsOn c = k.readsOn c := by
  simp [readsOn, SysCall.readOn]

theorem Kernel.readsOn_accept {k k' : Kernel} {accepted : Option ℤ}
    (h : k.accept accepted = some k') (fd : ℤ) (c : ConnId) :
    (k'.epollCtlAdd fd).readsOn c = k.readsOn c := by
  simp [readsOn, accept_calls h, SysCall.readOn]

namespace Epoll

/-- One read on a connection: whether a body is due, and the texts so far. -/
def listen : Bool × List Bytes → ReadResult → Bool × List Bytes
  | (false, texts), header => (header.stored ≠ [] ∧ (parseHeader header.stored).isSome, texts)
  | (true, texts), body => (false, texts ++ [cstr body.stored])

/-- The texts that the reads on a connection carry, from the reads alone. -/
def heard (reads : List ReadResult) : Bool × List Bytes := reads.foldl listen (false, [])

/-- What was handed over for each connection is what its own reads carry. -/
def Isolated (s : Epoll) : Prop := ∀ c, heard (s.kernel.readsOn c) = (false, s.handedTo c)

/-- The headers announce at most 1022 bytes, so that a zero byte stays behind the body
and the one byte more that is asked for. -/
def AnnouncesLess : Epoll → Action → Prop := Receiving fun _ n _ => n + 2 ≤ maxBodyLength

instance (s : Epoll) (a : Action) : Decidable (AnnouncesLess s a) :=
  inferInstanceAs (Decidable (Receiving (fun _ n _ => n + 2 ≤ maxBodyLength) s a))

theorem heard_append (reads rs : List ReadResult) :
    heard (reads ++ rs) = rs.foldl listen (heard reads) := List.foldl_append

theorem heard_rejected {reads : List ReadResult} {texts : List Bytes} {header : ReadResult}
    (h : heard reads = (false, texts))
    (hrej : header.stored = [] ∨ parseHeader header.stored = none) :
    heard (reads ++ [header]) = (false, texts) := by
  have hno : ¬ (header.stored ≠ [] ∧ (parseHeader header.stored).isSome) := by
    rintro ⟨hne, hsome⟩
    rw [hrej.resolve_left hne] at hsome
    cases hsome
  rw [heard_append, h, List.foldl_cons, List.foldl_nil, listen, decide_eq_false hno]

theorem heard_received {reads : List ReadResult} {texts : List Bytes} {header : ReadResult}
    {n : ℕ} (h : heard reads = (false, texts)) (hne : header.stored ≠ [])
    (hparse : parseHeader header.stored = some n) (body : ReadResult) :
    heard (reads ++ [header] ++ [body]) = (false, texts ++ [cstr body.stored]) := by
  have hyes : header.stored ≠ [] ∧ (parseHeader header.stored).isSome :=
    ⟨hne, by rw [hparse]; rfl⟩
  rw [heard_append, heard_append, h, List.foldl_cons, List.foldl_nil, List.foldl_cons,
    List.foldl_nil, listen, decide_eq_true hyes, listen]

/-- Every text is the beginning of what one of the reads stored. -/
theorem prefix_of_mem_heard {reads : List ReadResult} {text : Bytes}
    (h : text ∈ (heard reads).2) : ∃ r ∈ reads, text <+: r.stored := by
  induction reads using List.reverseRecOn with
  | nil => cases h
  | append_singleton reads r ih =>
      rw [heard_append, List.foldl_cons, List.foldl_nil] at h
      generalize heard reads = st at h ih
      obtain ⟨due, texts⟩ := st
      cases due with
      | false =>
          obtain ⟨r', hr', hprefix⟩ := ih h
          exact ⟨r', List.mem_append_left _ hr', hprefix⟩
      | true =>
          rcases List.mem_append.mp h with h | h
          · obtain ⟨r', hr', hprefix⟩ := ih h
            exact ⟨r', List.mem_append_left _ hr', hprefix⟩
          · rw [List.mem_singleton.mp h]
            exact ⟨r, List.mem_append_right _ List.mem_cons_self, List.takeWhile_prefix _⟩

theorem isolated_start (serverSocket : ℤ) (peers : ConnId → Peer) (readMsg : SocketMsg) :
    Isolated (start serverSocket peers readMsg) := fun _ => rfl

theorem isolated_step {s s' : Epoll} {a : Action} (hs : Isolated s) (ha : AnnouncesLess s a)
    (h : s.step a = some s') : Isolated s' := by
  obtain ⟨out, hadv⟩ := advances_of_step h
  intro c
  cases hadv with
  | epollWait => exact hs c
  | epollWaitFails => exact hs c
  | accept _ _ haccept =>
      rw [Kernel.readsOn_accept haccept]
      exact hs c
  | reject _ _ _ hheader hrej =>
      rw [Kernel.readsOn_close, Kernel.readsOn_read hheader]
      split
      · exact heard_rejected (hs c) hrej
      · rw [List.append_nil]
        exact hs c
  | receive hbatch hclient hin hheader hne hparse hbody =>
      have hless := ha _ _ _ (.intro hbatch hclient hin hheader hne hparse hbody)
      have hlen := Kernel.read_stored hbody
      rw [Kernel.readsOn_read hbody, Kernel.readsOn_read hheader, Kernel.read_names hheader,
        handedTo, filterMap_dataFrom, Kernel.read_names hbody, Kernel.read_names hheader,
        receivedText_of_lt (by omega)]
      split
      · exact heard_received (hs c) hne hparse _
      · simp only [List.append_nil]
        exact hs c
  | hangUp =>
      rw [Kernel.readsOn_close]
      exact hs c
  | ignore => exact hs c

theorem isolated_of_run {serverSocket : ℤ} {peers : ConnId → Peer} {readMsg : SocketMsg}
    {as : List Action} {s : Epoll}
    (hok : Meets step AnnouncesLess (start serverSocket peers readMsg) as)
    (hrun : run step (start serverSocket peers readMsg) as = some s) : Isolated s :=
  invariant_of_meets (fun _ _ _ hs ha h => isolated_step hs ha h)
    (isolated_start serverSocket peers readMsg) hok hrun

/-- Two runs in which a connection is read alike hand over the same strings for it,
each of them the beginning of what a read on this connection stored. -/
theorem handedTo_eq_of_readsOn_eq {serverSocket serverSocket' : ℤ} {peers peers' : ConnId → Peer}
    {readMsg readMsg' : SocketMsg} {as as' : List Action} {s s' : Epoll}
    (hok : Meets step AnnouncesLess (start serverSocket peers readMsg) as)
    (hrun : run step (start serverSocket peers readMsg) as = some s)
    (hok' : Meets step AnnouncesLess (start serverSocket' peers' readMsg') as')
    (hrun' : run step (start serverSocket' peers' readMsg') as' = some s') {c c' : ConnId}
    (hreads : s.kernel.readsOn c = s'.kernel.readsOn c') :
    s.handedTo c = s'.handedTo c' ∧
      ∀ text ∈ s.handedTo c, ∃ r ∈ s.kernel.readsOn c, text <+: r.stored := by
  have hc := isolated_of_run hok hrun c
  have hc' := isolated_of_run hok' hrun' c'
  refine ⟨(Prod.mk.inj (hc.symm.trans ((congrArg heard hreads).trans hc'))).2, ?_⟩
  intro text htext
  apply prefix_of_mem_heard
  rwa [hc]

/-- The same client alone, and beside another one that is read in between, with something
in the buffer. -/
theorem handedTo_eq_two_clients :
    ∃ s s', run step (start 3 (peersOf twoTexts) default)
        (firstEvents ++ [.handle { header := .upTo 4, body := .upTo 1 },
          .epollWait [{ fd := 5, epollin := true, epollerr := false }],
          .handle { header := .upTo 4, body := .upTo 1 }]) = some s ∧
      run step (start 3 (peersOf twoTexts) ((default : SocketMsg).write headerLength (ascii "zz")))
        twoClients = some s' ∧
      s.handedTo 0 = s'.handedTo 0 ∧
        ∀ text ∈ s.handedTo 0, ∃ r ∈ s.kernel.readsOn 0, text <+: r.stored := by
  obtain ⟨s, hs, hreads⟩ : ∃ s, run step (start 3 (peersOf twoTexts) default)
      (firstEvents ++ [.handle { header := .upTo 4, body := .upTo 1 },
        .epollWait [{ fd := 5, epollin := true, epollerr := false }],
        .handle { header := .upTo 4, body := .upTo 1 }]) = some s ∧
      s.kernel.readsOn 0 = [some (ascii "   1"), some (ascii "a"), some (ascii "   1"),
        some (ascii "b")] :=
    exists_of_any_run (by decide +kernel)
  obtain ⟨s', hs', hreads'⟩ : ∃ s', run step (start 3 (peersOf twoTexts)
        ((default : SocketMsg).write headerLength (ascii "zz"))) twoClients = some s' ∧
      s'.kernel.readsOn 0 = [some (ascii "   1"), some (ascii "a"), some (ascii "   1"),
        some (ascii "b")] :=
    exists_of_any_run (by decide +kernel)
  exact ⟨s, s', hs, hs', handedTo_eq_of_readsOn_eq (by decide +kernel) hs (by decide +kernel) hs'
    (hreads.trans hreads'.symm)⟩

end Epoll

end GafqEngine
