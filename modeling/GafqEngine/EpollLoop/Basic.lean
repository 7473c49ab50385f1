import GafqEngine.Kernel.Descriptors
import GafqEngine.ScriptEngine.Basic
import GafqEngine.SocketMsg.Frame

/-!
# The epoll loop

`init_epool` waits for events and handles the returned batch one event after the
other. An event of the server socket is answered by `accept`; on a readable
client a header and a body are read into the one message buffer of the loop and
handed to `ExecGafq`, or the client is closed.

One action is one call of `epoll_wait`, or one event of the batch with the
answers of the kernel to the calls made for it. The buffer is followed by other
memory, whose bytes are part of the answers: a C string that has no end inside
the buffer runs on into them.
-/

namespace GafqEngine

open CLib SocketMsg

def epollSize : ℕ := 1000

/-- An `epoll_event`: `data.fd`, and the bits `EPOLLIN` and `EPOLLERR`. -/
structure EpollEvent where
  fd : ℤ
  epollin : Bool
  epollerr : Bool

/-- The answers for one event: the number from `accept` (`none` for `-1`), the
two reads, and the memory behind the message buffer. -/
structure Choices where
  accepted : Option ℤ := none
  header : ReadChoice := .fails
  body : ReadChoice := .fails
  behind : Bytes := []

/-- A call of `ExecGafq`, with the connection that its data was read from. -/
structure Delivery where
  conn : Option ConnId
  args : ExecArgs

/-- The data that the call carries, if it was read from `c`. -/
def Delivery.dataFrom (c : ConnId) (d : Delivery) : Option Bytes :=
  if d.conn = some c then d.args.msg.map ScriptEngineMsgBase.data else none

/-- The loop: the descriptors, the rest of the batch, `read_msg_`, whether the
loop still runs, and the calls of `ExecGafq` so far. -/
structure Epoll where
  kernel : Kernel
  batch : List EpollEvent
  readMsg : SocketMsg
  running : Bool
  delivered : List Delivery

def startActionArgs (fd : ℤ) (data : Bytes) : ExecArgs :=
  { gafqContent := [], fd := fd, msg := some { action := ascii "start_action", data := data },
    status := 1, errinfo := [] }

namespace Epoll

/-- The loop before its first `epoll_wait`, with any bytes in the buffer. -/
def start (serverSocket : ℤ) (peers : ConnId → Peer) (readMsg : SocketMsg) : Epoll where
  kernel := Kernel.start serverSocket peers
  batch := []
  readMsg := readMsg
  running := true
  delivered := []

/-- The data strings handed to `ExecGafq` for a connection, in order. -/
def handedTo (s : Epoll) (c : ConnId) : List Bytes := s.delivered.filterMap (Delivery.dataFrom c)

/-- `body()` as a C string after `bytes` were stored there, where `behind` is
the memory behind the buffer. -/
def bodyText (m : SocketMsg) (bytes behind : Bytes) : Bytes :=
  cstr ((overwrite (m.data ++ behind) headerLength bytes).drop headerLength)

/-- The branch of the server socket. -/
def acceptClient (s : Epoll) (ch : Choices) : Option (Epoll × Option Delivery) :=
  (s.kernel.accept ch.accepted).map fun k =>
    ({ s with kernel := k.epollCtlAdd (ch.accepted.getD (-1)) }, none)

/-- The `EPOLLIN` branch of a client: the new state and the call of `ExecGafq`,
if there was one. -/
def readClient (s : Epoll) (fd : ℤ) (ch : Choices) : Option (Epoll × Option Delivery) :=
  let m := s.readMsg.deleteMsg
  (s.kernel.read fd headerLength ch.header).bind fun (strLen, k) =>
    let m := m.write 0 strLen.stored
    if 0 < strLen.count then
      let d := m.decodeHeader
      let m := d.2
      if d.1 then
        (k.read fd (m.bodyLength + 1) ch.body).map fun (strLen1, k) =>
          let data := bodyText m strLen1.stored ch.behind
          let d := { conn := k.names fd, args := startActionArgs fd data }
          ({ s with
            kernel := k
            readMsg := m.write headerLength strLen1.stored
            delivered := s.delivered ++ [d] }, some d)
      else some ({ s with kernel := k.close fd, readMsg := m }, none)
    else some ({ s with kernel := k.close fd, readMsg := m }, none)

/-- The body of the `for` loop. -/
def handleEvent (s : Epoll) (ev : EpollEvent) (ch : Choices) : Option (Epoll × Option Delivery) :=
  if ev.fd = s.kernel.serverSocket then s.acceptClient ch
  else if ev.epollin then s.readClient ev.fd ch
  else if ev.epollerr then some ({ s with kernel := s.kernel.close ev.fd }, none)
  else some (s, none)

def handle (s : Epoll) (ch : Choices) : Option (Epoll × Option Delivery) :=
  match s.batch with
  | [] => none
  | ev :: rest => { s with batch := rest }.handleEvent ev ch

/-- `epoll_wait` returns events or fails, or the next event is handled. -/
inductive Action where
  | epollWait (events : List EpollEvent)
  | epollWaitFails
  | handle (ch : Choices)

/-- What `epoll_wait` returns: at most one event for each descriptor of the set. -/
def Ready (k : Kernel) (events : List EpollEvent) : Prop :=
  events.length ≤ epollSize ∧ (events.map EpollEvent.fd).Nodup ∧
    ∀ ev ∈ events, k.registered ev.fd = true

instance (k : Kernel) (events : List EpollEvent) : Decidable (Ready k events) :=
  inferInstanceAs (Decidable (_ ∧ _ ∧ _))

/-- One step of the loop, with the call of `ExecGafq` that it made. The loop
waits again when the batch is worked off, and ends when that fails. -/
def advance (s : Epoll) : Action → Option (Epoll × Option Delivery)
  | .epollWait events =>
      if s.running ∧ s.batch = [] ∧ Ready s.kernel events then
        some ({ s with batch := events }, none)
      else none
  | .epollWaitFails =>
      if s.running ∧ s.batch = [] then some ({ s with running := false }, none) else none
  | .handle ch => s.handle ch

def step (s : Epoll) (a : Action) : Option Epoll := (s.advance a).map Prod.fst

/-- The bytes at `body()` after a read into the cleared buffer, as a C string. -/
def receivedText (bytes behind : Bytes) : Bytes :=
  cstr (overwrite (List.replicate maxBodyLength 0 ++ behind) 0 bytes)

theorem data_write_deleteMsg (m : SocketMsg) {header : Bytes} (h : header.length ≤ headerLength) :
    (m.deleteMsg.write 0 header).data =
      header ++ List.replicate (headerLength + maxBodyLength - header.length) 0 := by
  rw [write_data, deleteMsg]
  exact overwrite_replicate _ _ _ (h.trans (Nat.le_add_right _ _))

theorem parseHeader_write_deleteMsg (m : SocketMsg) {header : Bytes}
    (h : header.length ≤ headerLength) :
    parseHeader (m.deleteMsg.write 0 header).data = parseHeader header := by
  have hstr : strncat (header ++ List.replicate (headerLength + maxBodyLength - header.length) 0)
      headerLength = strncat header headerLength := by
    rw [strncat, strncat, List.take_append, List.take_of_length_le h, List.take_replicate,
      cstr_append_replicate_zero]
  rw [data_write_deleteMsg m h, parseHeader, hstr, parseHeader]

theorem body_write_deleteMsg (m : SocketMsg) {header : Bytes} (h : header.length ≤ headerLength) :
    (m.deleteMsg.write 0 header).body = List.replicate maxBodyLength 0 := by
  rw [body, data_write_deleteMsg m h, List.drop_append, List.drop_of_length_le h,
    List.drop_replicate, List.nil_append]
  congr 1
  omega

/-- What is read from the body depends on nothing but the bytes stored there. -/
theorem bodyText_eq_receivedText {m : SocketMsg} (hbody : m.body = List.replicate maxBodyLength 0)
    (bytes behind : Bytes) : bodyText m bytes behind = receivedText bytes behind := by
  have hlen : headerLength ≤ (m.data ++ behind).length := by
    rw [List.length_append, m.length_data]
    omega
  have hle : headerLength ≤ m.data.length := by
    rw [m.length_data]
    omega
  rw [bodyText, receivedText, drop_overwrite_offset hlen bytes, List.drop_append_of_le_length hle,
    ← hbody, body]

theorem receivedText_eq {bytes : Bytes} (h : bytes.length ≤ maxBodyLength) (behind : Bytes) :
    receivedText bytes behind =
      cstr (bytes ++ (List.replicate (maxBodyLength - bytes.length) 0 ++ behind)) := by
  have hsplit : List.replicate maxBodyLength (0 : UInt8) ++ behind =
      [] ++ (List.replicate bytes.length 0 ++
        (List.replicate (maxBodyLength - bytes.length) 0 ++ behind)) := by
    rw [List.nil_append, ← List.append_assoc, List.replicate_append_replicate,
      Nat.add_sub_cancel' h]
  rw [receivedText, hsplit]
  exact congrArg cstr (overwrite_append [] _ _ bytes List.length_replicate.symm)

theorem receivedText_of_lt {bytes : Bytes} (h : bytes.length < maxBodyLength) (behind : Bytes) :
    receivedText bytes behind = cstr bytes := by
  obtain ⟨k, hk⟩ : ∃ k, maxBodyLength - bytes.length = k + 1 :=
    Nat.exists_eq_succ_of_ne_zero (Nat.sub_ne_zero_of_lt h)
  rw [receivedText_eq h.le, hk, List.replicate_succ, List.cons_append, cstr_append_zero]

def delivery (k : Kernel) (fd : ℤ) (bytes behind : Bytes) : Delivery :=
  { conn := k.names fd, args := startActionArgs fd (receivedText bytes behind) }

theorem filterMap_dataFrom (ds : List Delivery) (k : Kernel) (fd : ℤ) (bytes behind : Bytes)
    (c : ConnId) :
    (ds ++ [delivery k fd bytes behind]).filterMap (Delivery.dataFrom c) =
      ds.filterMap (Delivery.dataFrom c) ++
        if k.names fd = some c then [receivedText bytes behind] else [] := by
  rw [List.filterMap_append, List.filterMap_cons, List.filterMap_nil]
  by_cases h : k.names fd = some c
  · simp [delivery, Delivery.dataFrom, startActionArgs, h]
  · simp [delivery, Delivery.dataFrom, h]

/-- A header with nothing in it, or one that is not accepted: the client is closed. -/
theorem readClient_of_rejected {s : Epoll} {fd : ℤ} {ch : Choices} {header : ReadResult}
    {k : Kernel} (hheader : s.kernel.read fd headerLength ch.header = some (header, k))
    (h : header.stored = [] ∨ parseHeader header.stored = none) :
    ∃ m : SocketMsg, m.body = List.replicate maxBodyLength 0 ∧
      s.readClient fd ch = some ({ s with kernel := k.close fd, readMsg := m }, none) := by
  have hlen : header.stored.length ≤ headerLength := Kernel.read_stored hheader
  have hzero := body_write_deleteMsg s.readMsg hlen
  have hparse := parseHeader_write_deleteMsg s.readMsg hlen
  simp only [readClient, hheader, Option.bind_some]
  generalize s.readMsg.deleteMsg.write 0 header.stored = m at hzero hparse ⊢
  by_cases hpos : 0 < header.count
  · rw [h.resolve_left (header.count_pos_iff.mp hpos)] at hparse
    refine ⟨{ m with bodyLength := 0 }, hzero, ?_⟩
    simp only [if_pos hpos, decodeHeader_of_none hparse, Bool.false_eq_true, if_false]
  · exact ⟨m, hzero, by rw [if_neg hpos]⟩

/-- An accepted header: whatever the second read stores is delivered as the body. -/
theorem readClient_of_accepted {s : Epoll} {fd : ℤ} {ch : Choices} {header : ReadResult}
    {k : Kernel} {n : ℕ} (hheader : s.kernel.read fd headerLength ch.header = some (header, k))
    (hne : header.stored ≠ []) (hparse : parseHeader header.stored = some n) :
    ∃ m : ReadResult → SocketMsg,
      (∀ r, (m r).body = overwrite (List.replicate maxBodyLength 0) 0 r.stored) ∧
      s.readClient fd ch = (k.read fd (n + 1) ch.body).map fun r =>
        ({ s with
          kernel := r.2
          readMsg := m r.1
          delivered := s.delivered ++ [delivery r.2 fd r.1.stored ch.behind] },
          some (delivery r.2 fd r.1.stored ch.behind)) := by
  have hlen : header.stored.length ≤ headerLength := Kernel.read_stored hheader
  have hpos : 0 < header.count := header.count_pos_iff.mpr hne
  have hzero := body_write_deleteMsg s.readMsg hlen
  have hparse' := parseHeader_write_deleteMsg s.readMsg hlen
  rw [hparse] at hparse'
  simp only [readClient, hheader, Option.bind_some, if_pos hpos]
  generalize s.readMsg.deleteMsg.write 0 header.stored = m at hzero hparse' ⊢
  have htext : ∀ bytes behind,
      bodyText { m with bodyLength := n } bytes behind = receivedText bytes behind :=
    bodyText_eq_receivedText hzero
  have hle : headerLength ≤ m.data.length := by
    rw [m.length_data]
    exact Nat.le_add_right _ _
  refine ⟨fun r => { m with bodyLength := n }.write headerLength r.stored, ?_, ?_⟩
  · intro r
    rw [← hzero]
    exact drop_overwrite_offset hle r.stored
  simp only [decodeHeader_of_some hparse', if_true, htext, delivery]

theorem readClient_cases {s s' : Epoll} {fd : ℤ} {ch : Choices} {out : Option Delivery}
    (h : s.readClient fd ch = some (s', out)) :
    ∃ header k, s.kernel.read fd headerLength ch.header = some (header, k) ∧
      (((header.stored = [] ∨ parseHeader header.stored = none) ∧ out = none ∧
          ∃ m : SocketMsg, m.body = List.replicate maxBodyLength 0 ∧
            s' = { s with kernel := k.close fd, readMsg := m }) ∨
        ∃ n body k', ∃ m : SocketMsg, header.stored ≠ [] ∧ parseHeader header.stored = some n ∧
          k.read fd (n + 1) ch.body = some (body, k') ∧
          out = some (delivery k' fd body.stored ch.behind) ∧
          m.body = overwrite (List.replicate maxBodyLength 0) 0 body.stored ∧
          s' = { s with
            kernel := k'
            readMsg := m
            delivered := s.delivered ++ [delivery k' fd body.stored ch.behind] }) := by
  cases hheader : s.kernel.read fd headerLength ch.header with
  | none => simp [readClient, hheader] at h
  | some r =>
      obtain ⟨header, k⟩ := r
      refine ⟨header, k, rfl, ?_⟩
      by_cases hrej : header.stored = [] ∨ parseHeader header.stored = none
      · obtain ⟨m, hzero, hm⟩ := readClient_of_rejected hheader hrej
        obtain ⟨rfl, rfl⟩ := Prod.mk.inj (Option.some.inj (hm.symm.trans h))
        exact Or.inl ⟨hrej, rfl, m, hzero, rfl⟩
      · obtain ⟨hne, hsome⟩ := not_or.mp hrej
        obtain ⟨n, hparse⟩ := Option.ne_none_iff_exists'.mp hsome
        obtain ⟨m, hstored, hm⟩ := readClient_of_accepted hheader hne hparse
        rw [hm, Option.map_eq_some_iff] at h
        obtain ⟨⟨body, k'⟩, hbody, heq⟩ := h
        obtain ⟨rfl, rfl⟩ := Prod.mk.inj heq
        exact Or.inr ⟨n, body, k', m body, hne, hparse, hbody, rfl, hstored body, rfl⟩

/-- A readable client whose peer answers both reads: a message is delivered. -/
theorem advance_handle_of_reads (ch : Choices) {s : Epoll} {ev : EpollEvent}
    {rest : List EpollEvent} {c : ConnId} {header body : ReadResult} {p p' : Peer} {n : ℕ}
    (hbatch : s.batch = ev :: rest)
    (hserver : ev.fd ≠ s.kernel.serverSocket) (hin : ev.epollin = true)
    (hn : s.kernel.names ev.fd = some c)
    (hheader : (s.kernel.peers c).read headerLength ch.header = some (header, p))
    (hne : header.stored ≠ []) (hparse : parseHeader header.stored = some n)
    (hbody : p.read (n + 1) ch.body = some (body, p')) :
    ∃ m, s.advance (.handle ch) =
      some ({ s with
        kernel := (s.kernel.afterRead ev.fd c headerLength header p).afterRead ev.fd c (n + 1)
          body p'
        batch := rest
        readMsg := m
        delivered := s.delivered ++ [{
          conn := some c
          args := startActionArgs ev.fd (receivedText body.stored ch.behind) }] },
        some { conn := some c
               args := startActionArgs ev.fd (receivedText body.stored ch.behind) }) := by
  have hread := Kernel.read_of_peer hn hheader
  have hread' : (s.kernel.afterRead ev.fd c headerLength header p).read ev.fd (n + 1) ch.body =
      some (body, (s.kernel.afterRead ev.fd c headerLength header p).afterRead ev.fd c (n + 1)
        body p') :=
    Kernel.read_of_peer hn (by rwa [Kernel.afterRead_peers, Function.update_self])
  obtain ⟨m, -, hm⟩ := readClient_of_accepted (s := { s with batch := rest }) hread hne hparse
  refine ⟨m body, ?_⟩
  rw [hread', Option.map_some] at hm
  simp only [advance, handle, hbatch, handleEvent, if_neg hserver, hin, if_true, hm, delivery,
    Kernel.afterRead_names, hn]

theorem handleEvent_cases {s s' : Epoll} {ev : EpollEvent} {ch : Choices} {out : Option Delivery}
    (h : s.handleEvent ev ch = some (s', out)) :
    (ev.fd = s.kernel.serverSocket ∧ out = none ∧ ∃ k, s.kernel.accept ch.accepted = some k ∧
        s' = { s with kernel := k.epollCtlAdd (ch.accepted.getD (-1)) }) ∨
      (ev.fd ≠ s.kernel.serverSocket ∧ ev.epollin = true ∧
        s.readClient ev.fd ch = some (s', out)) ∨
      (ev.fd ≠ s.kernel.serverSocket ∧ ev.epollin = false ∧ out = none ∧
        ((ev.epollerr = true ∧ s' = { s with kernel := s.kernel.close ev.fd }) ∨
          (ev.epollerr = false ∧ s' = s))) := by
  unfold handleEvent at h
  by_cases hserver : ev.fd = s.kernel.serverSocket
  · rw [if_pos hserver, acceptClient, Option.map_eq_some_iff] at h
    obtain ⟨k, hk, heq⟩ := h
    obtain ⟨rfl, rfl⟩ := Prod.mk.inj heq
    exact Or.inl ⟨hserver, rfl, k, hk, rfl⟩
  · rw [if_neg hserver] at h
    cases hin : ev.epollin with
    | true => exact Or.inr (Or.inl ⟨hserver, rfl, by simpa [hin] using h⟩)
    | false =>
        refine Or.inr (Or.inr ⟨hserver, rfl, ?_⟩)
        cases herr : ev.epollerr with
        | true =>
            simp only [hin, herr, Bool.false_eq_true, if_false, if_true, Option.some.injEq,
              Prod.mk.injEq] at h
            exact ⟨h.2.symm, Or.inl ⟨rfl, h.1.symm⟩⟩
        | false =>
            simp only [hin, herr, Bool.false_eq_true, if_false, Option.some.injEq,
              Prod.mk.injEq] at h
            exact ⟨h.2.symm, Or.inr ⟨rfl, h.1.symm⟩⟩

inductive Advances (s : Epoll) : Action → Epoll → Option Delivery → Prop
  | epollWait {events : List EpollEvent} (hbatch : s.batch = [])
      (hready : Ready s.kernel events) :
      Advances s (.epollWait events) { s with batch := events } none
  | epollWaitFails (hbatch : s.batch = []) :
      Advances s .epollWaitFails { s with running := false } none
  | accept {ch : Choices} {ev : EpollEvent} {rest : List EpollEvent} {k : Kernel}
      (hbatch : s.batch = ev :: rest) (hserver : ev.fd = s.kernel.serverSocket)
      (haccept : s.kernel.accept ch.accepted = some k) :
      Advances s (.handle ch)
        { s with kernel := k.epollCtlAdd (ch.accepted.getD (-1)), batch := rest } none
  | reject {ch : Choices} {ev : EpollEvent} {rest : List EpollEvent} {header : ReadResult}
      {k : Kernel} {m : SocketMsg} (hbatch : s.batch = ev :: rest)
      (hclient : ev.fd ≠ s.kernel.serverSocket) (hin : ev.epollin = true)
      (hheader : s.kernel.read ev.fd headerLength ch.header = some (header, k))
      (hrej : header.stored = [] ∨ parseHeader header.stored = none)
      (hm : m.body = List.replicate maxBodyLength 0) :
      Advances s (.handle ch)
        { s with kernel := k.close ev.fd, batch := rest, readMsg := m } none
  | receive {ch : Choices} {ev : EpollEvent} {rest : List EpollEvent} {header body : ReadResult}
      {k k' : Kernel} {n : ℕ} {m : SocketMsg} (hbatch : s.batch = ev :: rest)
      (hclient : ev.fd ≠ s.kernel.serverSocket) (hin : ev.epollin = true)
      (hheader : s.kernel.read ev.fd headerLength ch.header = some (header, k))
      (hne : header.stored ≠ []) (hparse : parseHeader header.stored = some n)
      (hbody : k.read ev.fd (n + 1) ch.body = some (body, k'))
      (hm : m.body = overwrite (List.replicate maxBodyLength 0) 0 body.stored) :
      Advances s (.handle ch)
        { s with
          kernel := k'
          batch := rest
          readMsg := m
          delivered := s.delivered ++ [delivery k' ev.fd body.stored ch.behind] }
        (some (delivery k' ev.fd body.stored ch.behind))
  | hangUp {ch : Choices} {ev : EpollEvent} {rest : List EpollEvent}
      (hbatch : s.batch = ev :: rest) (hclient : ev.fd ≠ s.kernel.serverSocket)
      (hin : ev.epollin = false) (herr : ev.epollerr = true) :
      Advances s (.handle ch) { s with kernel := s.kernel.close ev.fd, batch := rest } none
  | ignore {ch : Choices} {ev : EpollEvent} {rest : List EpollEvent}
      (hbatch : s.batch = ev :: rest) (hclient : ev.fd ≠ s.kernel.serverSocket)
      (hin : ev.epollin = false) (herr : ev.epollerr = false) :
      Advances s (.handle ch) { s with batch := rest } none

theorem advances_of_handleEvent {s s' : Epoll} {ch : Choices} {ev : EpollEvent}
    {rest : List EpollEvent} {out : Option Delivery} (hbatch : s.batch = ev :: rest)
    (h : { s with batch := rest }.handleEvent ev ch = some (s', out)) :
    Advances s (.handle ch) s' out := by
  rcases handleEvent_cases h with
      ⟨hserver, rfl, k, hk, rfl⟩ | ⟨hclient, hin, hread⟩ | ⟨hclient, hin, rfl, hclose⟩
  · exact .accept hbatch hserver hk
  · obtain ⟨header, k, hheader, hcases⟩ := readClient_cases hread
    rcases hcases with ⟨hrej, rfl, m, hm, rfl⟩ | ⟨n, body, k', m, hne, hparse, hbody, rfl, hm, rfl⟩
    · exact .reject hbatch hclient hin hheader hrej hm
    · exact .receive hbatch hclient hin hheader hne hparse hbody hm
  · rcases hclose with ⟨herr, rfl⟩ | ⟨herr, rfl⟩
    · exact .hangUp hbatch hclient hin herr
    · exact .ignore hbatch hclient hin herr

theorem advances_of_advance {s s' : Epoll} {a : Action} {out : Option Delivery}
    (h : s.advance a = some (s', out)) : Advances s a s' out := by
  cases a with
  | epollWait events =>
      simp only [advance, Option.ite_none_right_eq_some, Option.some.injEq, Prod.mk.injEq] at h
      obtain ⟨⟨-, hbatch, hready⟩, rfl, rfl⟩ := h
      exact .epollWait hbatch hready
  | epollWaitFails =>
      simp only [advance, Option.ite_none_right_eq_some, Option.some.injEq, Prod.mk.injEq] at h
      obtain ⟨⟨-, hbatch⟩, rfl, rfl⟩ := h
      exact .epollWaitFails hbatch
  | handle ch =>
      cases hbatch : s.batch with
      | nil => simp [advance, handle, hbatch] at h
      | cons ev rest =>
          simp only [advance, handle, hbatch] at h
          exact advances_of_handleEvent hbatch h

theorem advances_of_step {s s' : Epoll} {a : Action} (h : s.step a = some s') :
    ∃ out, Advances s a s' out := by
  obtain ⟨⟨_, out⟩, hadv, rfl⟩ := Option.map_eq_some_iff.mp h
  exact ⟨out, advances_of_advance hadv⟩

/-- The step receives a message: the client is readable, what its header read
stored is accepted with the length `n`, and the body read returned. -/
inductive Receives (s : Epoll) : Action → Bytes → ℕ → Bytes → Prop
  | intro {ch : Choices} {ev : EpollEvent} {rest : List EpollEvent} {header body : ReadResult}
      {k k' : Kernel} {n : ℕ} (hbatch : s.batch = ev :: rest)
      (hclient : ev.fd ≠ s.kernel.serverSocket) (hin : ev.epollin = true)
      (hheader : s.kernel.read ev.fd headerLength ch.header = some (header, k))
      (hne : header.stored ≠ []) (hparse : parseHeader header.stored = some n)
      (hbody : k.read ev.fd (n + 1) ch.body = some (body, k')) :
      Receives s (.handle ch) header.stored n body.stored

theorem Receives.unique {s : Epoll} {a : Action} {header header' body body' : Bytes} {n n' : ℕ}
    (h : Receives s a header n body) (h' : Receives s a header' n' body') :
    header = header' ∧ n = n' ∧ body = body' := by
  obtain ⟨hbatch, -, -, hheader, -, hparse, hbody⟩ := h
  obtain ⟨hbatch', -, -, hheader', -, hparse', hbody'⟩ := h'
  obtain ⟨rfl, -⟩ := List.cons.inj (hbatch.symm.trans hbatch')
  obtain ⟨rfl, rfl⟩ := Prod.mk.inj (Option.some.inj (hheader.symm.trans hheader'))
  obtain rfl := Option.some.inj (hparse.symm.trans hparse')
  obtain ⟨rfl, -⟩ := Prod.mk.inj (Option.some.inj (hbody.symm.trans hbody'))
  exact ⟨rfl, rfl, rfl⟩

def Receiving (P : Bytes → ℕ → Bytes → Prop) (s : Epoll) (a : Action) : Prop :=
  ∀ header n body, Receives s a header n body → P header n body

theorem receiving_handle_iff {P : Bytes → ℕ → Bytes → Prop} {s : Epoll} {ch : Choices} :
    Receiving P s (.handle ch) ↔ ∀ ev ∈ s.batch.head?, ev.fd ≠ s.kernel.serverSocket →
      ev.epollin = true → ∀ r ∈ s.kernel.read ev.fd headerLength ch.header, r.1.stored ≠ [] →
        ∀ n ∈ parseHeader r.1.stored, ∀ r' ∈ r.2.read ev.fd (n + 1) ch.body,
          P r.1.stored n r'.1.stored := by
  constructor
  · intro h ev hev hclient hin r hr hne n hn r' hr'
    exact h _ _ _ (.intro (List.eq_cons_of_mem_head? hev) hclient hin hr hne hn hr')
  · intro h header n body hr
    obtain ⟨hbatch, hclient, hin, hheader, hne, hparse, hbody⟩ := hr
    exact h _ (by rw [hbatch]; rfl) hclient hin _ hheader hne n hparse _ hbody

instance (P : Bytes → ℕ → Bytes → Prop) [∀ header n body, Decidable (P header n body)]
    (s : Epoll) : ∀ a, Decidable (Receiving P s a)
  | .handle _ => decidable_of_iff _ receiving_handle_iff.symm
  | .epollWait _ => isTrue fun _ _ _ h => by cases h
  | .epollWaitFails => isTrue fun _ _ _ h => by cases h

/-- A step that makes no call of `ExecGafq` receives no message. -/
theorem not_receives_of_advances {s s' : Epoll} {a : Action} {header body : Bytes} {n : ℕ}
    (h : Advances s a s' none) : ¬ Receives s a header n body := by
  rintro ⟨hbatch, hclient, hin, hheader, hne, hparse, hbody⟩
  cases h with
  | accept hbatch' hserver =>
      obtain ⟨rfl, -⟩ := List.cons.inj (hbatch.symm.trans hbatch')
      exact hclient hserver
  | reject hbatch' _ _ hheader' hrej =>
      obtain ⟨rfl, -⟩ := List.cons.inj (hbatch.symm.trans hbatch')
      obtain ⟨rfl, rfl⟩ := Prod.mk.inj (Option.some.inj (hheader.symm.trans hheader'))
      rw [hparse] at hrej
      simp [hne] at hrej
  | hangUp hbatch' _ hin' =>
      obtain ⟨rfl, -⟩ := List.cons.inj (hbatch.symm.trans hbatch')
      exact absurd hin (by simp [hin'])
  | ignore hbatch' _ hin' =>
      obtain ⟨rfl, -⟩ := List.cons.inj (hbatch.symm.trans hbatch')
      exact absurd hin (by simp [hin'])

theorem receiving_of_advances {s s' : Epoll} {a : Action} (h : Advances s a s' none)
    (P : Bytes → ℕ → Bytes → Prop) : Receiving P s a :=
  fun _ _ _ hr => absurd hr (not_receives_of_advances h)

theorem Receives.receiving_iff {s : Epoll} {a : Action} {header body : Bytes} {n : ℕ}
    (h : Receives s a header n body) {P : Bytes → ℕ → Bytes → Prop} :
    Receiving P s a ↔ P header n body := by
  refine ⟨fun H => H header n body h, fun hp header' n' body' h' => ?_⟩
  obtain ⟨rfl, rfl, rfl⟩ := h.unique h'
  exact hp

/-- A step only closes connections and gives numbers to new ones. -/
theorem later_advance {s s' : Epoll} {a : Action} {out : Option Delivery}
    (h : s.advance a = some (s', out)) : Kernel.Later s.kernel s'.kernel := by
  cases advances_of_advance h with
  | epollWait => exact .of_names_eq rfl rfl
  | epollWaitFails => exact .of_names_eq rfl rfl
  | accept _ _ haccept => exact (Kernel.later_accept haccept).trans (Kernel.later_epollCtlAdd _ _)
  | reject _ _ _ hheader => exact (Kernel.later_read hheader).trans (Kernel.later_close _ _)
  | receive _ _ _ hheader _ _ hbody =>
      exact (Kernel.later_read hheader).trans (Kernel.later_read hbody)
  | hangUp => exact Kernel.later_close _ _
  | ignore => exact .of_names_eq rfl rfl

/-- What a step hands to `ExecGafq` was read from the number that it carries. -/
theorem advance_delivery {s s' : Epoll} {a : Action} {d : Delivery}
    (h : s.advance a = some (s', some d)) :
    ∃ fd bytes behind, d = delivery s'.kernel fd bytes behind := by
  cases advances_of_advance h with
  | receive => exact ⟨_, _, _, rfl⟩

end Epoll

end GafqEngine
