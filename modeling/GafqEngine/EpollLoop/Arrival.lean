import GafqEngine.EpollLoop.Inbound

/-!
# Streams that are still arriving

While the loop runs its clients go on writing, so at any time a connection holds a part
of its stream only, and that may end inside a header or a body. Of what a client wrote,
the whole frames at the front were handed over, and the rest is not read yet.
-/

namespace GafqEngine

open CLib SocketMsg

/-- Of what a client wrote, the frames of the bodies handed over were read, and these are
the first of its bodies. -/
structure Fed (bodies handed : List Bytes) (written unread : Bytes) : Prop where
  inOrder : handed <+: bodies
  stream : written = socketCodec.frames handed ++ unread

theorem Fed.unread_prefix {bodies handed rest : List Bytes} {written unread : Bytes}
    (h : Fed bodies handed written unread) (hrest : handed ++ rest = bodies)
    (hwritten : written <+: socketCodec.frames bodies) : unread <+: socketCodec.frames rest := by
  rw [h.stream, ← hrest, Framing.Codec.frames_append] at hwritten
  exact (List.prefix_append_right_inj _).mp hwritten

/-- A whole header at the front of such a part is the header of the next body. -/
theorem read_header_part {p p' : Peer} {choice : ReadChoice} {header : ReadResult}
    {rest : List Bytes} (hpart : p.unread <+: socketCodec.frames rest)
    (hfit : ∀ b ∈ rest, b.length ≤ maxBodyLength)
    (h : p.read headerLength choice = some (header, p'))
    (hfour : header.stored.length = headerLength) :
    ∃ b rest', rest = b :: rest' ∧ header.stored = socketCodec.header b.length ∧
      p'.unread <+: b ++ socketCodec.frames rest' := by
  obtain ⟨hsplit, -⟩ := Peer.read_eq_some h
  obtain ⟨future, hfuture⟩ := hpart
  rw [hsplit, List.append_assoc] at hfuture
  cases rest with
  | nil =>
      rw [socketCodec.frames_nil] at hfuture
      rw [(List.append_eq_nil_iff.mp hfuture).1] at hfour
      cases hfour
  | cons b rest' =>
      have hb : b.length ≤ maxBodyLength := hfit b List.mem_cons_self
      have hwidth : header.stored.length = (socketCodec.header b.length).length := by
        rw [hfour, socketCodec.length_header _ hb, socketCodec_width]
      rw [socketCodec.frames_cons, Framing.Codec.frame, List.append_assoc] at hfuture
      obtain ⟨hheader, hrest⟩ := List.append_inj hfuture hwidth
      exact ⟨b, rest', rfl, hheader, ⟨future, hrest⟩⟩

namespace Epoll

/-- Every connection is read in step with what was written on it, and each delivery is a
body of the connection it is from. -/
structure Inbound (bodies : ConnId → List Bytes) (written : ConnId → Bytes) (s : Epoll) :
    Prop where
  fed : ∀ c, Fed (bodies c) (s.handedTo c) (written c) (s.kernel.peers c).unread
  named : ∀ d ∈ s.delivered, ∃ c data,
    d = { conn := some c, args := startActionArgs d.args.fd data } ∧ data ∈ bodies c

/-- Two reads that return a whole frame hand its body over. -/
theorem fed_receive {bodies handed : List Bytes} {written : Bytes} {p p₁ p₂ : Peer} {ch : Choices}
    {header body : ReadResult} {n : ℕ}
    (hbodies : ∀ b ∈ bodies, NulFree b ∧ b.length ≤ maxBodyLength)
    (hwritten : written <+: socketCodec.frames bodies)
    (h : Fed bodies handed written p.unread) (hok : ReadsFrame p ch)
    (hheader : p.read headerLength ch.header = some (header, p₁)) (hne : header.stored ≠ [])
    (hparse : parseHeader header.stored = some n)
    (hbody : p₁.read (n + 1) ch.body = some (body, p₂)) :
    receivedText body.stored ch.behind ∈ bodies ∧
      Fed bodies (handed ++ [receivedText body.stored ch.behind]) written p₂.unread := by
  obtain ⟨rest, hrest⟩ := h.inOrder
  have hfit : ∀ b ∈ rest, NulFree b ∧ b.length ≤ maxBodyLength := fun b hb =>
    hbodies b (hrest ▸ List.mem_append_right _ hb)
  obtain ⟨hfour, hexact⟩ := hok header p₁ hheader hne
  obtain ⟨hlen, hfull⟩ := hexact n body p₂ hparse hbody
  obtain ⟨b, rest', rfl, hstored, future, hfuture⟩ :=
    read_header_part (h.unread_prefix hrest hwritten) (fun b hb => (hfit b hb).2) hheader hfour
  have hb := hfit b List.mem_cons_self
  rw [hstored, socketCodec_header, parseHeader_sprintfWidth hb.2, Option.some.injEq] at hparse
  subst hparse
  obtain ⟨hsplit, -⟩ := Peer.read_eq_some hheader
  obtain ⟨hsplit', -⟩ := Peer.read_eq_some hbody
  rw [hsplit', List.append_assoc] at hfuture
  obtain ⟨hbytes, -⟩ := List.append_inj hfuture hlen
  have htext : receivedText body.stored ch.behind = b := by
    rw [hbytes]
    exact receivedText_body hb.1 hb.2 hfull
  rw [htext]
  refine ⟨hrest ▸ List.mem_append_right _ List.mem_cons_self, ⟨rest', ?_⟩, ?_⟩
  · rw [List.append_assoc, List.singleton_append, hrest]
  · rw [h.stream, hsplit, hsplit', hstored, hbytes, Framing.Codec.frames_append,
      socketCodec.frames_cons, socketCodec.frames_nil, List.append_nil, Framing.Codec.frame,
      List.append_assoc, List.append_assoc]

/-- A header that is not accepted has nothing in it. -/
theorem fed_rejected {bodies handed : List Bytes} {written : Bytes} {p p' : Peer} {ch : Choices}
    {header : ReadResult} (hbodies : ∀ b ∈ bodies, NulFree b ∧ b.length ≤ maxBodyLength)
    (hwritten : written <+: socketCodec.frames bodies)
    (h : Fed bodies handed written p.unread) (hok : ReadsFrame p ch)
    (hheader : p.read headerLength ch.header = some (header, p'))
    (hrej : header.stored = [] ∨ parseHeader header.stored = none) :
    Fed bodies handed written p'.unread := by
  obtain ⟨hsplit, -⟩ := Peer.read_eq_some hheader
  by_cases hempty : header.stored = []
  · rw [hempty, List.nil_append] at hsplit
    rwa [← hsplit]
  · obtain ⟨rest, hrest⟩ := h.inOrder
    have hfit : ∀ b ∈ rest, b.length ≤ maxBodyLength := fun b hb =>
      (hbodies b (hrest ▸ List.mem_append_right _ hb)).2
    obtain ⟨b, rest', rfl, hstored, -⟩ := read_header_part (h.unread_prefix hrest hwritten) hfit
      hheader (hok header p' hheader hempty).1
    have hparse := hrej.resolve_left hempty
    rw [hstored, socketCodec_header, parseHeader_sprintfWidth (hfit b List.mem_cons_self)] at hparse
    cases hparse

/-- Only the connection that a step works on has to be looked at. -/
theorem fed_of_conn {bodies : ConnId → List Bytes} {written : ConnId → Bytes} {s s' : Epoll}
    (hi : ∀ c, Fed (bodies c) (s.handedTo c) (written c) (s.kernel.peers c).unread) (c : ConnId)
    (hother : ∀ d, d ≠ c →
      s'.handedTo d = s.handedTo d ∧ s'.kernel.peers d = s.kernel.peers d)
    (hc : Fed (bodies c) (s'.handedTo c) (written c) (s'.kernel.peers c).unread) :
    ∀ d, Fed (bodies d) (s'.handedTo d) (written d) (s'.kernel.peers d).unread := by
  intro d
  by_cases hd : d = c
  · rw [hd]
    exact hc
  · rw [(hother d hd).1, (hother d hd).2]
    exact hi d

section Steps

variable {bodies : ConnId → List Bytes} {written : ConnId → Bytes}

/-- The bytes that a client writes wait behind those that are unread. -/
theorem inbound_writes {s : Epoll} {c : ConnId} {p : Peer} {bytes : Bytes}
    (hi : Inbound bodies written s) (hp : p.unread = (s.kernel.peers c).unread ++ bytes) :
    Inbound bodies (Function.update written c (written c ++ bytes))
      { s with kernel := { s.kernel with peers := Function.update s.kernel.peers c p } } := by
  refine ⟨fun d => ?_, hi.named⟩
  obtain ⟨horder, hstream⟩ := hi.fed d
  rcases eq_or_ne d c with rfl | hd
  · refine ⟨horder, ?_⟩
    simp only [Function.update_self, hp, hstream, List.append_assoc]
    rfl
  · simp only [Function.update_of_ne hd]
    exact ⟨horder, hstream⟩

theorem inbound_accepted {s : Epoll} {fd : ℤ} {c : ConnId} {ch : Choices}
    {header body : ReadResult} {k k' : Kernel} {n : ℕ} (hbodies : BodiesFit bodies)
    (hwritten : ∀ c, written c <+: socketCodec.frames (bodies c)) (hi : Inbound bodies written s)
    (hn : s.kernel.names fd = some c) (hok : ReadsFrame (s.kernel.peers c) ch)
    (hheader : s.kernel.read fd headerLength ch.header = some (header, k))
    (hne : header.stored ≠ []) (hparse : parseHeader header.stored = some n)
    (hbody : k.read fd (n + 1) ch.body = some (body, k')) :
    Inbound bodies written { s with
      kernel := k'
      delivered := s.delivered ++ [delivery k' fd body.stored ch.behind] } := by
  have hnk : k.names fd = some c := (congrFun (Kernel.read_names hheader) fd).trans hn
  have hnk' : k'.names fd = some c := (congrFun (Kernel.read_names hbody) fd).trans hnk
  obtain ⟨p, hp, hpeers⟩ := Kernel.read_of_some hn hheader
  obtain ⟨p', hp', hpeers'⟩ := Kernel.read_of_some hnk hbody
  rw [hpeers, Function.update_self] at hp'
  obtain ⟨hmem, hfed⟩ := fed_receive (hbodies c) (hwritten c) (hi.fed c) hok hp hne hparse hp'
  constructor
  · apply fed_of_conn hi.fed c
    · intro d hd
      have hcd : k'.names fd ≠ some d := fun hcd => hd (Option.some.inj (hcd.symm.trans hnk'))
      refine ⟨by rw [handedTo, filterMap_dataFrom, if_neg hcd, List.append_nil, handedTo], ?_⟩
      rw [hpeers', Function.update_of_ne hd, hpeers, Function.update_of_ne hd]
    · rw [handedTo, filterMap_dataFrom, if_pos hnk', hpeers', Function.update_self]
      exact hfed
  · intro d hd
    rcases List.mem_append.mp hd with hd | hd
    · exact hi.named d hd
    · rw [List.mem_singleton.mp hd, delivery, hnk']
      exact ⟨c, _, rfl, hmem⟩

theorem inbound_rejected {s : Epoll} {fd : ℤ} {ch : Choices} {header : ReadResult} {k : Kernel}
    (hbodies : BodiesFit bodies) (hwritten : ∀ c, written c <+: socketCodec.frames (bodies c))
    (hi : Inbound bodies written s)
    (hok : ∀ c, s.kernel.names fd = some c → ReadsFrame (s.kernel.peers c) ch)
    (hheader : s.kernel.read fd headerLength ch.header = some (header, k))
    (hrej : header.stored = [] ∨ parseHeader header.stored = none) :
    Inbound bodies written { s with kernel := k.close fd } := by
  refine ⟨?_, hi.named⟩
  cases hn : s.kernel.names fd with
  | none =>
      intro d
      rw [Kernel.close_peers, (Kernel.read_of_none hn hheader).2]
      exact hi.fed d
  | some c =>
      obtain ⟨p, hp, hpeers⟩ := Kernel.read_of_some hn hheader
      apply fed_of_conn hi.fed c
      · intro d hd
        refine ⟨rfl, ?_⟩
        rw [Kernel.close_peers, hpeers, Function.update_of_ne hd]
      · rw [Kernel.close_peers, hpeers, Function.update_self]
        exact fed_rejected (hbodies c) (hwritten c) (hi.fed c) (hok c hn) hp hrej

/-- A step whose reads return what the frames have for them keeps in step. -/
theorem inbound_advance {s s' : Epoll} {a : Action} {out : Option Delivery}
    (hbodies : BodiesFit bodies) (hwritten : ∀ c, written c <+: socketCodec.frames (bodies c))
    (hi : Inbound bodies written s) (ha : Aligned s a) (h : s.advance a = some (s', out)) :
    Inbound bodies written s' := by
  cases advances_of_advance h with
  | epollWait => exact ⟨hi.fed, hi.named⟩
  | epollWaitFails => exact ⟨hi.fed, hi.named⟩
  | accept _ _ haccept =>
      refine ⟨fun c => ?_, hi.named⟩
      rw [Kernel.epollCtlAdd_peers, Kernel.accept_peers haccept]
      exact hi.fed c
  | reject hbatch hclient hin hheader hrej =>
      have hkept := inbound_rejected hbodies hwritten hi
        (fun c hn => ha _ _ c hbatch hclient hin hn) hheader hrej
      exact ⟨hkept.fed, hkept.named⟩
  | receive hbatch hclient hin hheader hne hparse hbody =>
      obtain ⟨c, hn⟩ := Kernel.names_of_stored hheader hne
      have hkept := inbound_accepted hbodies hwritten hi hn (ha _ _ c hbatch hclient hin hn)
        hheader hne hparse hbody
      exact ⟨hkept.fed, hkept.named⟩
  | hangUp => exact ⟨hi.fed, hi.named⟩
  | ignore => exact ⟨hi.fed, hi.named⟩

end Steps

end Epoll

end GafqEngine
