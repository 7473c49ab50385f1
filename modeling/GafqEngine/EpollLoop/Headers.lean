import GafqEngine.EpollLoop.Inbound

/-!
# The headers that are accepted

`encode_header` writes a length as four characters. `decode_header` takes whatever
`atoi` makes of the bytes that were read: blanks, a sign, the digits up to the first
other byte, and zero where there are none. A header that is no encoding is therefore
rejected only when its number is out of range (`checksHeader_iff`).
-/

namespace GafqEngine

open CLib SocketMsg Transition

namespace SocketMsg

/-- The bytes are what `encode_header` writes for some body length. -/
def IsHeader (bytes : Bytes) : Prop :=
  ∃ m : SocketMsg, m.bodyLength ≤ maxBodyLength ∧ bytes = m.encodeHeader.data.take headerLength

theorem isHeader_iff {bytes : Bytes} :
    IsHeader bytes ↔ ∃ n ≤ maxBodyLength, bytes = sprintfWidth 4 n := by
  constructor
  · rintro ⟨m, hm, rfl⟩
    exact ⟨m.bodyLength, hm, take_encodeHeader_data hm⟩
  · rintro ⟨n, hn, rfl⟩
    let m : SocketMsg := { (default : SocketMsg) with bodyLength := n }
    exact ⟨m, hn, (take_encodeHeader_data (m := m) hn).symm⟩

/-- Four bytes, which are accepted with the length that they were written for. -/
theorem IsHeader.eq_sprintfWidth {bytes : Bytes} {n : ℕ} (h : IsHeader bytes)
    (hparse : parseHeader bytes = some n) : bytes = sprintfWidth 4 n := by
  obtain ⟨n', hn', rfl⟩ := isHeader_iff.mp h
  rw [parseHeader_sprintfWidth hn'] at hparse
  rw [Option.some.inj hparse]

end SocketMsg

namespace Epoll

/-- The event is handled with its header checked: an item is enqueued only behind a
proper header, and behind any other the connection is closed and nothing is enqueued. -/
structure ChecksHeader (s : Epoll) (ev : EpollEvent) (rest : List EpollEvent) (ch : Choices)
    (header : Bytes) (k : Kernel) : Prop where
  enqueued : ∀ s' d, s.advance (.handle ch) = some (s', some d) → IsHeader header
  closed : ¬ IsHeader header → ∃ m, s.advance (.handle ch) =
    some ({ s with kernel := k.close ev.fd, batch := rest, readMsg := m }, none)

section Client

variable {s : Epoll} {ev : EpollEvent} {rest : List EpollEvent} {ch : Choices}
  {header : ReadResult} {k : Kernel}

theorem advance_of_rejected (hbatch : s.batch = ev :: rest)
    (hclient : ev.fd ≠ s.kernel.serverSocket) (hin : ev.epollin = true)
    (hheader : s.kernel.read ev.fd headerLength ch.header = some (header, k))
    (hrej : header.stored = [] ∨ parseHeader header.stored = none) :
    ∃ m, s.advance (.handle ch) =
      some ({ s with kernel := k.close ev.fd, batch := rest, readMsg := m }, none) := by
  obtain ⟨m, -, hm⟩ := readClient_of_rejected (s := { s with batch := rest }) hheader hrej
  refine ⟨m, ?_⟩
  simp only [advance, handle, hbatch, handleEvent, if_neg hclient, hin, if_true, hm]

/-- An accepted header is followed by the body read, and what that returns is enqueued. -/
theorem advance_ne_of_accepted {n : ℕ} (hbatch : s.batch = ev :: rest)
    (hclient : ev.fd ≠ s.kernel.serverSocket) (hin : ev.epollin = true)
    (hheader : s.kernel.read ev.fd headerLength ch.header = some (header, k))
    (hne : header.stored ≠ []) (hparse : parseHeader header.stored = some n) (s' : Epoll) :
    s.advance (.handle ch) ≠ some (s', none) := by
  obtain ⟨m, -, hm⟩ := readClient_of_accepted (s := { s with batch := rest }) hheader hne hparse
  simp only [advance, handle, hbatch, handleEvent, if_neg hclient, hin, if_true, hm]
  intro h
  obtain ⟨r, -, hr⟩ := Option.map_eq_some_iff.mp h
  cases (Prod.mk.inj hr).2

/-- In every state, a header read that returns bytes is checked exactly when they are
a proper header or their number is out of range. -/
theorem checksHeader_iff (hbatch : s.batch = ev :: rest)
    (hclient : ev.fd ≠ s.kernel.serverSocket) (hin : ev.epollin = true)
    (hheader : s.kernel.read ev.fd headerLength ch.header = some (header, k))
    (hne : header.stored ≠ []) :
    ChecksHeader s ev rest ch header.stored k ↔
      IsHeader header.stored ∨ headerNumber header.stored < 0 ∨
        (maxBodyLength : ℤ) < headerNumber header.stored := by
  rw [← parseHeader_eq_none_iff]
  constructor
  · intro h
    by_cases hproper : IsHeader header.stored
    · exact Or.inl hproper
    · obtain ⟨m, hm⟩ := h.closed hproper
      refine Or.inr (Option.eq_none_iff_forall_ne_some.mpr fun n hparse => ?_)
      exact advance_ne_of_accepted hbatch hclient hin hheader hne hparse _ hm
  · rintro (hproper | hparse)
    · exact ⟨fun _ _ _ => hproper, fun h => absurd hproper h⟩
    · obtain ⟨m, hm⟩ := advance_of_rejected hbatch hclient hin hheader (Or.inr hparse)
      refine ⟨fun s' d h => ?_, fun _ => ⟨m, hm⟩⟩
      cases (Prod.mk.inj (Option.some.inj (hm.symm.trans h))).2

end Client

/-- The first client is readable, and a header is all that it has sent. -/
theorem run_firstEvents_header (header : Bytes) (hne : header ≠ [])
    (hlen : header.length ≤ headerLength) :
    ∃ s k, run step (start 3 (fun _ => { unread := header, eof := true, reset := false }) default)
        firstEvents = some s ∧
      s.batch = [{ fd := 5, epollin := true, epollerr := false }] ∧
      (5 : ℤ) ≠ s.kernel.serverSocket ∧
      s.kernel.read 5 headerLength (.upTo header.length) = some (some header, k) := by
  obtain ⟨s, hrun, hbatch, hserver, hnames, hpeers, -⟩ := run_firstEvents
    (fun _ => { unread := header, eof := true, reset := false }) default
  have hunread : (s.kernel.peers 0).unread = header ++ [] := by rw [hpeers, List.append_nil]
  have hread := Kernel.read_of_peer hnames (Peer.read_append hunread hne hlen)
  exact ⟨s, _, hrun, hbatch, by rw [hserver]; decide, hread⟩

theorem checksHeader_iff_one_header :
    ∃ s k, ChecksHeader s { fd := 5, epollin := true, epollerr := false } [] { header := .upTo 4 }
        (ascii "  -1") k ↔
      IsHeader (ascii "  -1") ∨ headerNumber (ascii "  -1") < 0 ∨
        (maxBodyLength : ℤ) < headerNumber (ascii "  -1") := by
  obtain ⟨s, k, -, hbatch, hclient, hread⟩ :=
    run_firstEvents_header (ascii "  -1") (by decide) (by decide)
  have hne : ReadResult.stored (some (ascii "  -1")) ≠ [] := by decide
  exact ⟨s, k, checksHeader_iff hbatch hclient rfl hread hne⟩

/-- The first byte of a header is taken for a whole one. -/
theorem not_checksHeader_on_short_read :
    ¬ ∀ (s : Epoll) (ev : EpollEvent) (rest : List EpollEvent) (ch : Choices)
        (header : ReadResult) (k : Kernel), s.batch = ev :: rest →
      ev.fd ≠ s.kernel.serverSocket → ev.epollin = true →
      s.kernel.read ev.fd headerLength ch.header = some (header, k) → header.stored ≠ [] →
      ChecksHeader s ev rest ch header.stored k := by
  intro h
  obtain ⟨s, k, -, hbatch, hclient, hread⟩ :=
    run_firstEvents_header (ascii "1") (by decide) (by decide)
  have hne : ReadResult.stored (some (ascii "1")) ≠ [] := by decide
  have hparse : parseHeader (ReadResult.stored (some (ascii "1"))) = some 1 := by decide
  have hproper : ¬ IsHeader (ReadResult.stored (some (ascii "1"))) := fun hp =>
    absurd (hp.eq_sprintfWidth hparse) (by decide)
  obtain ⟨m, hm⟩ := (h s _ [] { header := .upTo 1 } _ k hbatch hclient rfl hread hne).closed hproper
  exact advance_ne_of_accepted hbatch hclient rfl hread hne hparse _ hm

end Epoll

end GafqEngine
