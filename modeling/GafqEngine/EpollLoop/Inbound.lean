import GafqEngine.EpollLoop.Basic
import GafqEngine.Transition.Run

/-!
# Inbound framing

Every client sends frames back to back, and the loop hands bodies to `ExecGafq`.
The stream of a connection that is not read yet should always be the frames of
the bodies that were not handed over yet. The second read asks for one byte more
than the header announces, and neither read looks at how much it got, so this
holds as long as each read happens to return what the frame has for it
(`Aligned`): the header read four bytes, the body read the announced number, and
behind a body that fills the buffer a NUL follows in memory.
-/

namespace GafqEngine

open CLib SocketMsg Transition

namespace Epoll

/-- The reads from the peer return a whole header and exactly the body, if the
first returns anything. -/
def ReadsFrame (p : Peer) (ch : Choices) : Prop :=
  ∀ header p₁, p.read headerLength ch.header = some (header, p₁) → header.stored ≠ [] →
    header.stored.length = headerLength ∧
      ∀ n body p₂, parseHeader header.stored = some n →
        p₁.read (n + 1) ch.body = some (body, p₂) →
          body.stored.length = n ∧ (n < maxBodyLength ∨ cstr ch.behind = [])

instance (p : Peer) (ch : Choices) : Decidable (ReadsFrame p ch) :=
  decidable_of_iff
    (∀ r ∈ p.read headerLength ch.header, r.1.stored ≠ [] → r.1.stored.length = headerLength ∧
      ∀ n ∈ parseHeader r.1.stored, ∀ r' ∈ r.2.read (n + 1) ch.body,
        r'.1.stored.length = n ∧ (n < maxBodyLength ∨ cstr ch.behind = []))
    ⟨fun h header p₁ hheader hne => ⟨(h (header, p₁) hheader hne).1,
        fun n body p₂ hparse hbody => (h (header, p₁) hheader hne).2 n hparse (body, p₂) hbody⟩,
      fun h r hr hne => ⟨(h r.1 r.2 hr hne).1,
        fun n hparse r' hr' => (h r.1 r.2 hr hne).2 n r'.1 r'.2 hparse hr'⟩⟩

/-- The reads for the event return what the frame has for them. -/
def Aligned (s : Epoll) : Action → Prop
  | .handle ch => ∀ ev rest c, s.batch = ev :: rest → ev.fd ≠ s.kernel.serverSocket →
      ev.epollin = true → s.kernel.names ev.fd = some c → ReadsFrame (s.kernel.peers c) ch
  | _ => True

instance (s : Epoll) : ∀ a, Decidable (Aligned s a)
  | .handle ch =>
      decidable_of_iff
        (∀ ev ∈ s.batch.head?, ev.fd ≠ s.kernel.serverSocket → ev.epollin = true →
          ∀ c ∈ s.kernel.names ev.fd, ReadsFrame (s.kernel.peers c) ch)
        ⟨fun h ev rest c hbatch hclient hin hc => h ev (by rw [hbatch]; rfl) hclient hin c hc,
          fun h ev hev hclient hin c hc =>
            h ev s.batch.tail c (List.eq_cons_of_mem_head? hev) hclient hin hc⟩
  | .epollWait _ => isTrue trivial
  | .epollWaitFails => isTrue trivial

/-- Of the bodies sent on `c`, those handed over and those still unread. -/
def InStep (sent : ConnId → List Bytes) (s : Epoll) : Prop :=
  ∀ c, ∃ rest, sent c = s.handedTo c ++ rest ∧
    (s.kernel.peers c).unread = socketCodec.frames rest

/-- The bodies are strings without NUL that fit into a message. -/
def BodiesFit (sent : ConnId → List Bytes) : Prop :=
  ∀ c, ∀ b ∈ sent c, NulFree b ∧ b.length ≤ maxBodyLength

theorem receivedText_body {b behind : Bytes} (hb : NulFree b) (hlen : b.length ≤ maxBodyLength)
    (h : b.length < maxBodyLength ∨ cstr behind = []) : receivedText b behind = b := by
  by_cases hlt : b.length < maxBodyLength
  · rw [receivedText_of_lt hlt, cstr_of_nulFree hb]
  · have hfull : maxBodyLength - b.length = 0 := Nat.sub_eq_zero_of_le (Nat.not_lt.mp hlt)
    rw [receivedText_eq hlen, hfull, List.replicate_zero, List.nil_append, cstr_append hb,
      h.resolve_left hlt, List.append_nil]

theorem read_header {p p' : Peer} {choice : ReadChoice} {header : ReadResult} {rest : List Bytes}
    (hunread : p.unread = socketCodec.frames rest) (hfit : ∀ b ∈ rest, b.length ≤ maxBodyLength)
    (h : p.read headerLength choice = some (header, p'))
    (hfour : header.stored.length = headerLength) :
    ∃ b rest', rest = b :: rest' ∧ parseHeader header.stored = some b.length ∧
      p'.unread = b ++ socketCodec.frames rest' := by
  obtain ⟨hsplit, -⟩ := Peer.read_eq_some h
  cases rest with
  | nil =>
      rw [hunread, socketCodec.frames_nil] at hsplit
      rw [(List.append_eq_nil_iff.mp hsplit.symm).1] at hfour
      cases hfour
  | cons b rest' =>
      have hb : b.length ≤ maxBodyLength := hfit b List.mem_cons_self
      have hwidth : header.stored.length = (socketCodec.header b.length).length := by
        rw [hfour, socketCodec.length_header _ hb, socketCodec_width]
      rw [hunread, socketCodec.frames_cons, Framing.Codec.frame, List.append_assoc] at hsplit
      obtain ⟨hheader, hrest⟩ := List.append_inj hsplit.symm hwidth
      refine ⟨b, rest', rfl, ?_, hrest⟩
      rw [hheader, socketCodec_header, parseHeader_sprintfWidth hb]

theorem read_body {p p' : Peer} {count : ℕ} {choice : ReadChoice} {body : ReadResult}
    {b stream : Bytes} (hunread : p.unread = b ++ stream)
    (h : p.read count choice = some (body, p')) (hlen : body.stored.length = b.length) :
    body.stored = b ∧ p'.unread = stream := by
  obtain ⟨hsplit, -⟩ := Peer.read_eq_some h
  exact List.append_inj (hsplit.symm.trans hunread) hlen

/-- Only the connection that a step works on has to be looked at. -/
theorem inStep_of_conn {sent : ConnId → List Bytes} {s s' : Epoll} (hi : InStep sent s)
    (c : ConnId) (hother : ∀ d, d ≠ c →
      s'.handedTo d = s.handedTo d ∧ s'.kernel.peers d = s.kernel.peers d)
    (hc : ∃ rest, sent c = s'.handedTo c ++ rest ∧
      (s'.kernel.peers c).unread = socketCodec.frames rest) : InStep sent s' := by
  intro d
  by_cases hd : d = c
  · rw [hd]
    exact hc
  · rw [(hother d hd).1, (hother d hd).2]
    exact hi d

/-- A client whose header read gave nothing is closed with its stream untouched. -/
theorem inStep_empty {sent : ConnId → List Bytes} {s : Epoll} {fd : ℤ} {choice : ReadChoice}
    {header : ReadResult} {k : Kernel} (hi : InStep sent s)
    (hheader : s.kernel.read fd headerLength choice = some (header, k))
    (hempty : header.stored = []) : InStep sent { s with kernel := k.close fd } := by
  intro d
  obtain ⟨rest, hsent, hunread⟩ := hi d
  refine ⟨rest, hsent, ?_⟩
  rw [Kernel.close_peers, ← hunread]
  cases hn : s.kernel.names fd with
  | none => rw [(Kernel.read_of_none hn hheader).2]
  | some c =>
      obtain ⟨p, hp, hpeers⟩ := Kernel.read_of_some hn hheader
      by_cases hd : d = c
      · rw [hpeers, hd, Function.update_self, (Peer.read_eq_some hp).1, hempty, List.nil_append]
      · rw [hpeers, Function.update_of_ne hd]

/-- A header and a body that are read as one frame are handed over as its body. -/
theorem inStep_accepted {sent : ConnId → List Bytes} {s : Epoll} {fd : ℤ} {c : ConnId}
    {ch : Choices} {header body : ReadResult} {k k' : Kernel} {n : ℕ} (hbodies : BodiesFit sent)
    (hi : InStep sent s) (hn : s.kernel.names fd = some c)
    (hok : ReadsFrame (s.kernel.peers c) ch)
    (hheader : s.kernel.read fd headerLength ch.header = some (header, k))
    (hne : header.stored ≠ []) (hparse : parseHeader header.stored = some n)
    (hbody : k.read fd (n + 1) ch.body = some (body, k')) :
    InStep sent { s with
      kernel := k'
      delivered := s.delivered ++ [delivery k' fd body.stored ch.behind] } := by
  obtain ⟨rest, hsent, hunread⟩ := hi c
  have hfit : ∀ b ∈ s.handedTo c ++ rest, NulFree b ∧ b.length ≤ maxBodyLength :=
    hsent ▸ hbodies c
  have hnk : k.names fd = some c := (congrFun (Kernel.read_names hheader) fd).trans hn
  have hnk' : k'.names fd = some c := (congrFun (Kernel.read_names hbody) fd).trans hnk
  obtain ⟨p, hp, hpeers⟩ := Kernel.read_of_some hn hheader
  obtain ⟨p', hp', hpeers'⟩ := Kernel.read_of_some hnk hbody
  rw [hpeers, Function.update_self] at hp'
  obtain ⟨hfour, hexact⟩ := hok header p hp hne
  obtain ⟨hlen, hfull⟩ := hexact n body p' hparse hp'
  obtain ⟨b, rest', rfl, hparse', hstream⟩ :=
    read_header hunread (fun b hb => (hfit b (List.mem_append_right _ hb)).2) hp hfour
  have hbn : n = b.length := Option.some.inj (hparse.symm.trans hparse')
  obtain ⟨hb, hunread'⟩ := read_body hstream hp' (hlen.trans hbn)
  have hbfit := hfit b (List.mem_append_right _ List.mem_cons_self)
  have htext : receivedText body.stored ch.behind = b := by
    rw [hb]
    exact receivedText_body hbfit.1 hbfit.2 (hbn ▸ hfull)
  refine inStep_of_conn hi c ?_ ⟨rest', ?_, ?_⟩
  · intro d hd
    have hcd : k'.names fd ≠ some d := fun hcd => hd (Option.some.inj (hcd.symm.trans hnk'))
    refine ⟨by rw [handedTo, filterMap_dataFrom, if_neg hcd, List.append_nil, handedTo], ?_⟩
    rw [hpeers', Function.update_of_ne hd, hpeers, Function.update_of_ne hd]
  · rw [handedTo, filterMap_dataFrom, if_pos hnk', htext, List.append_assoc,
      List.singleton_append, hsent, handedTo]
  · rw [hpeers', Function.update_self, hunread']

/-- Where whole headers are read, a header that is rejected is an empty one. -/
theorem inStep_rejected {sent : ConnId → List Bytes} {s : Epoll} {fd : ℤ} {ch : Choices}
    {header : ReadResult} {k : Kernel} (hbodies : BodiesFit sent) (hi : InStep sent s)
    (hok : ∀ c, s.kernel.names fd = some c → ReadsFrame (s.kernel.peers c) ch)
    (hheader : s.kernel.read fd headerLength ch.header = some (header, k))
    (hrej : header.stored = [] ∨ parseHeader header.stored = none) :
    InStep sent { s with kernel := k.close fd } := by
  by_cases hempty : header.stored = []
  · exact inStep_empty hi hheader hempty
  · obtain ⟨c, hn⟩ := Kernel.names_of_stored hheader hempty
    obtain ⟨rest, hsent, hunread⟩ := hi c
    have hfit : ∀ b ∈ rest, b.length ≤ maxBodyLength := fun b hb =>
      (hbodies c b (hsent ▸ List.mem_append_right _ hb)).2
    obtain ⟨p, hp, -⟩ := Kernel.read_of_some hn hheader
    obtain ⟨b, -, -, hparse, -⟩ := read_header hunread hfit hp (hok c hn header p hp hempty).1
    rw [hparse] at hrej
    simp [hempty] at hrej

theorem inStep_step {sent : ConnId → List Bytes} {s s' : Epoll} {a : Action}
    (hbodies : BodiesFit sent) (hi : InStep sent s) (ha : Aligned s a) (h : s.step a = some s') :
    InStep sent s' := by
  obtain ⟨out, hadv⟩ := advances_of_step h
  cases hadv with
  | epollWait => exact hi
  | epollWaitFails => exact hi
  | accept _ _ haccept =>
      intro c
      rw [Kernel.epollCtlAdd_peers, Kernel.accept_peers haccept]
      exact hi c
  | reject hbatch hclient hin hheader hrej =>
      exact inStep_rejected hbodies hi (fun c hn => ha _ _ c hbatch hclient hin hn) hheader hrej
  | receive hbatch hclient hin hheader hne hparse hbody =>
      obtain ⟨c, hn⟩ := Kernel.names_of_stored hheader hne
      exact inStep_accepted hbodies hi hn (ha _ _ c hbatch hclient hin hn) hheader hne hparse hbody
  | hangUp => exact hi
  | ignore => exact hi

def firstEvents : List Action :=
  [.epollWait [{ fd := 3, epollin := true, epollerr := false }],
    .handle { accepted := some 5 },
    .epollWait [{ fd := 5, epollin := true, epollerr := false }]]

theorem run_firstEvents (peers : ConnId → Peer) (readMsg : SocketMsg) :
    ∃ s, run step (start 3 peers readMsg) firstEvents = some s ∧
      s.batch = [{ fd := 5, epollin := true, epollerr := false }] ∧
      s.kernel.serverSocket = 3 ∧ s.kernel.names 5 = some 0 ∧ s.kernel.peers = peers ∧
      s.delivered = [] ∧ s.kernel.calls = [.accept (some 5)] :=
  ⟨_, rfl, rfl, rfl, rfl, rfl, rfl, rfl⟩

theorem run_one_message (peers : ConnId → Peer) (readMsg : SocketMsg) (ch : Choices) (n : ℕ)
    {header body : ReadResult} {p p' : Peer}
    (hheader : (peers 0).read headerLength ch.header = some (header, p))
    (hne : header.stored ≠ []) (hparse : parseHeader header.stored = some n)
    (hbody : p.read (n + 1) ch.body = some (body, p')) :
    ∃ s, run step (start 3 peers readMsg) (firstEvents ++ [.handle ch]) = some s ∧
      s.handedTo 0 = [receivedText body.stored ch.behind] ∧
      s.kernel.calls = [.accept (some 5), .read 5 (some 0) headerLength header,
        .read 5 (some 0) (n + 1) body] := by
  obtain ⟨s, hs, hbatch, hserver, hnames, hpeers, hdelivered, hcalls⟩ :=
    run_firstEvents peers readMsg
  obtain ⟨m, hm⟩ := advance_handle_of_reads ch hbatch (by rw [hserver]; decide) rfl
    hnames (by rwa [hpeers]) hne hparse hbody
  have hrun := run_concat step (start 3 peers readMsg) firstEvents (.handle ch)
  rw [hs, Option.bind_some, step, hm, Option.map_some] at hrun
  refine ⟨_, hrun, ?_, ?_⟩
  · simp only [handedTo, hdelivered]
    rfl
  · simp only [Kernel.afterRead, hcalls]
    rfl

/-- The clients have sent their frames, and keep their connections open. -/
def peersOf (sent : ConnId → List Bytes) (c : ConnId) : Peer :=
  { unread := socketCodec.frames (sent c), eof := false, reset := false }

/-- In every state reached by reads that return what the frames have for them,
the strings handed over for a connection are the first bodies sent on it. -/
theorem handedTo_prefix_of_meets_aligned {sent : ConnId → List Bytes} (serverSocket : ℤ)
    (peers : ConnId → Peer) (readMsg : SocketMsg) {as : List Action} {s : Epoll}
    (hbodies : BodiesFit sent) (hsent : ∀ c, (peers c).unread = socketCodec.frames (sent c))
    (hok : Meets step Aligned (start serverSocket peers readMsg) as)
    (hrun : run step (start serverSocket peers readMsg) as = some s) (c : ConnId) :
    s.handedTo c <+: sent c := by
  have hstart : InStep sent (start serverSocket peers readMsg) :=
    fun c => ⟨sent c, rfl, hsent c⟩
  have hend : InStep sent s :=
    invariant_of_meets (fun _ _ _ hi ha h => inStep_step hbodies hi ha h) hstart hok hrun
  obtain ⟨rest, hrest, -⟩ := hend c
  exact ⟨rest, hrest.symm⟩

/-- Two clients connect, and a frame of one byte is read of each; then another one of the
first. -/
def twoClients : List Action :=
  [.epollWait [{ fd := 3, epollin := true, epollerr := false }], .handle { accepted := some 5 },
    .epollWait [{ fd := 3, epollin := true, epollerr := false }], .handle { accepted := some 6 },
    .epollWait [{ fd := 5, epollin := true, epollerr := false },
      { fd := 6, epollin := true, epollerr := false }],
    .handle { header := .upTo 4, body := .upTo 1 }, .handle { header := .upTo 4, body := .upTo 1 },
    .epollWait [{ fd := 5, epollin := true, epollerr := false }],
    .handle { header := .upTo 4, body := .upTo 1 }]

def twoTexts (c : ConnId) : List Bytes := if c = 0 then [ascii "a", ascii "b"] else [ascii "c"]

theorem handedTo_prefix_two_clients :
    ∃ s, run step (start 3 (peersOf twoTexts) default) twoClients = some s ∧
      s.handedTo 0 = [ascii "a", ascii "b"] ∧ s.handedTo 1 = [ascii "c"] ∧
      s.handedTo 0 <+: twoTexts 0 := by
  have hbodies : BodiesFit twoTexts := by
    have hfit : ∀ b ∈ [ascii "a", ascii "b"] ++ [ascii "c"],
        NulFree b ∧ b.length ≤ maxBodyLength := by decide
    intro c b hb
    apply hfit b
    rw [twoTexts] at hb
    split at hb
    · exact List.mem_append_left _ hb
    · exact List.mem_append_right _ hb
  obtain ⟨s, hs, hfirst, hsecond⟩ : ∃ s,
      run step (start 3 (peersOf twoTexts) default) twoClients = some s ∧
        s.handedTo 0 = [ascii "a", ascii "b"] ∧ s.handedTo 1 = [ascii "c"] :=
    exists_of_any_run (by decide +kernel)
  have hok : Meets step Aligned (start 3 (peersOf twoTexts) default) twoClients := by
    decide +kernel
  exact ⟨s, hs, hfirst, hsecond,
    handedTo_prefix_of_meets_aligned 3 _ default hbodies (fun _ => rfl) hok hs 0⟩

/-- Two frames in one segment: the byte that the second read asks for beyond the
body is the first of the next header. -/
theorem handedTo_not_prefix_on_pipelined_frames :
    ¬ ∀ (sent : ConnId → List Bytes) (serverSocket : ℤ) (peers : ConnId → Peer)
        (readMsg : SocketMsg) (as : List Action) (s : Epoll), BodiesFit sent →
      (∀ c, (peers c).unread = socketCodec.frames (sent c)) →
      run step (start serverSocket peers readMsg) as = some s →
      ∀ c, s.handedTo c <+: sent c := by
  intro h
  obtain ⟨s, hrun, hdata, -⟩ := run_one_message (peersOf fun _ => [ascii "a", ascii "b"]) default
    { header := .upTo 4, body := .upTo 2 } 1 rfl (by decide) (by decide) rfl
  have hprefix := h (fun _ => [ascii "a", ascii "b"]) 3 _ default _ s ?_ (fun _ => rfl) hrun 0
  · rw [hdata, receivedText_of_lt (by decide)] at hprefix
    revert hprefix
    decide
  · intro c b hb
    have hfit : ∀ b ∈ [ascii "a", ascii "b"], NulFree b ∧ b.length ≤ maxBodyLength := by decide
    exact hfit b hb

end Epoll

end GafqEngine
