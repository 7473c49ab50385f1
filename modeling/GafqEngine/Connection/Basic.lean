import GafqEngine.SocketMsg.ReadLoop
import GafqEngine.WritePump.Order

/-!
# Both directions of a connection

`chat_client` and `socket_session` read and write on one socket, in one thread that runs
the handlers of the operations that are done. The read loop and the write pump are those
of each direction; together they have the socket, and `do_close` of either ends both. An
operation that is done has a handler waiting, which runs as a success even when the
socket is closed meanwhile; one that is not done fails then.

In every state the bodies that were accepted are the first of those in the bytes that
arrived, and all of them when the loop waits for more; what the socket took is a part of
the messages in their order.
-/

namespace GafqEngine

open CLib SocketMsg Transition

inductive Phase where
  | connecting
  | connected
  | refused
  deriving DecidableEq, Repr

/-- A connection: the connect, the read loop, whether the outstanding read has got its
bytes, the write pump, the bytes taken by reads, and those that arrived behind them. -/
structure Connection where
  phase : Phase
  reading : ReadLoop
  filled : Bool
  pump : WritePump
  consumed : Bytes
  incoming : Bytes

namespace Connection

/-- The constructor: the connect is under way, nothing is read or written. -/
def start (m : SocketMsg) : Connection where
  phase := .connecting
  reading := { ReadLoop.start m with pending := none }
  filled := false
  pump := WritePump.start
  consumed := []
  incoming := []

/-- `do_close` ran. -/
def closed (s : Connection) : Bool := s.reading.closed || s.pump.closed

def needed (s : Connection) : ReadOp → ℕ
  | .handleReadHeader => headerLength
  | .handleReadBody => s.reading.readMsg.bodyLength

def offset : ReadOp → ℕ
  | .handleReadHeader => 0
  | .handleReadBody => headerLength

/-- The connect is done or has failed, bytes arrive, the outstanding read gets its bytes
or its handler runs, or the write pump makes a step: `do_close` is one of these. -/
inductive Action where
  | connect (error : Bool)
  | arrive (bytes : Bytes)
  | fill
  | handleRead (error : Bool)
  | write (a : WritePump.Action)

def usesSocket : WritePump.Action → Bool
  | .transfer _ _ => true
  | _ => false

/-- `handle_connect` of the client; `handle_accept` with `start` of the session. -/
def handleConnect (s : Connection) (error : Bool) : Connection :=
  if error then { s with phase := .refused }
  else
    { s with
      phase := .connected
      reading := { s.reading with pending := some .handleReadHeader } }

def fill (s : Connection) (op : ReadOp) : Connection :=
  let bytes := s.incoming.take (s.needed op)
  { s with
    reading := { s.reading with readMsg := s.reading.readMsg.write (offset op) bytes }
    filled := true
    consumed := s.consumed ++ bytes
    incoming := s.incoming.drop (s.needed op) }

def handled (r : Reader) (loop : ReadLoop) (error : Bool) : ReadOp → ReadLoop
  | .handleReadHeader => loop.handleReadHeader r error
  | .handleReadBody => loop.handleReadBody r error

/-- One step. A closed socket gives no bytes and takes none; a read of no bytes at all is
done on any socket. `async_read` fails such a read when it is started on a closed one, so
there are more runs here. -/
def step (r : Reader) (w : Writer) (s : Connection) : Action → Option Connection
  | .connect error => if s.phase = .connecting then some (s.handleConnect error) else none
  | .arrive bytes =>
      if s.phase = .connected then some { s with incoming := s.incoming ++ bytes } else none
  | .fill =>
      s.reading.pending.bind fun op =>
        if s.filled = false ∧ s.needed op ≤ s.incoming.length ∧
            (s.closed = false ∨ s.needed op = 0) then some (s.fill op)
        else none
  | .handleRead error =>
      s.reading.pending.bind fun op =>
        if s.filled = !error then
          some { s with reading := handled r s.reading error op, filled := false }
        else none
  | .write a =>
      if usesSocket a ∧ (s.closed ∨ s.phase ≠ .connected) then none
      else (WritePump.step w s.pump a).map fun p => { s with pump := p }

def received (s : Connection) : Bytes := s.consumed ++ s.incoming

/-- The outstanding read needs more bytes than arrived. -/
def Waits (s : Connection) : Prop :=
  s.filled = false ∧ ∃ op, s.reading.pending = some op ∧ s.incoming.length < s.needed op

/-- The bodies are accepted as they arrive, and the messages written as they are
delivered. -/
structure Serves (s : Connection) : Prop where
  accepted : s.reading.accepted <+: (socketCodec.decode s.received).1
  caughtUp : s.Waits → s.reading.accepted = (socketCodec.decode s.received).1
  written : s.pump.accepted <+: WritePump.wires s.pump.delivered

inductive Moves (r : Reader) (w : Writer) (s : Connection) : Action → Connection → Prop
  | refused (hphase : s.phase = .connecting) :
      Moves r w s (.connect true) { s with phase := .refused }
  | connected (hphase : s.phase = .connecting) :
      Moves r w s (.connect false) { s with
        phase := .connected
        reading := { s.reading with pending := some .handleReadHeader } }
  | arrive {bytes : Bytes} (hphase : s.phase = .connected) :
      Moves r w s (.arrive bytes) { s with incoming := s.incoming ++ bytes }
  | fill {op : ReadOp} (hpending : s.reading.pending = some op) (hfilled : s.filled = false)
      (hlen : s.needed op ≤ s.incoming.length) (hopen : s.closed = false ∨ s.needed op = 0) :
      Moves r w s .fill (s.fill op)
  | handleRead {op : ReadOp} (hpending : s.reading.pending = some op) (hfilled : s.filled = true) :
      Moves r w s (.handleRead false)
        { s with reading := handled r s.reading false op, filled := false }
  | failRead {op : ReadOp} (hpending : s.reading.pending = some op) (hfilled : s.filled = false) :
      Moves r w s (.handleRead true) { s with reading := s.reading.fail r, filled := false }
  | write {a : WritePump.Action} {p : WritePump} (hstep : WritePump.step w s.pump a = some p)
      (hopen : usesSocket a = true → s.closed = false) : Moves r w s (.write a) { s with pump := p }

theorem moves_of_step {r : Reader} {w : Writer} {s s' : Connection} {a : Action}
    (h : step r w s a = some s') : Moves r w s a s' := by
  cases a with
  | connect error =>
      simp only [step, Option.ite_none_right_eq_some, Option.some.injEq] at h
      obtain ⟨hphase, rfl⟩ := h
      cases error with
      | true => exact .refused hphase
      | false => exact .connected hphase
  | arrive bytes =>
      simp only [step, Option.ite_none_right_eq_some, Option.some.injEq] at h
      obtain ⟨hphase, rfl⟩ := h
      exact .arrive hphase
  | fill =>
      simp only [step, Option.bind_eq_some_iff, Option.ite_none_right_eq_some,
        Option.some.injEq] at h
      obtain ⟨op, hpending, ⟨hfilled, hlen, hopen⟩, rfl⟩ := h
      exact .fill hpending hfilled hlen hopen
  | handleRead error =>
      simp only [step, Option.bind_eq_some_iff, Option.ite_none_right_eq_some,
        Option.some.injEq] at h
      obtain ⟨op, hpending, hfilled, rfl⟩ := h
      cases error with
      | false => exact .handleRead hpending hfilled
      | true =>
          have hfail : handled r s.reading true op = s.reading.fail r := by
            cases op with
            | handleReadHeader => rfl
            | handleReadBody => rfl
          rw [hfail]
          exact .failRead hpending hfilled
  | write a =>
      simp only [step, Option.ite_none_left_eq_some, Option.map_eq_some_iff] at h
      obtain ⟨hguard, p, hstep, rfl⟩ := h
      refine .write hstep fun huses => ?_
      rw [not_and, not_or, Bool.not_eq_true] at hguard
      exact (hguard huses).1

/-! ### Reading -/

def ahead (r : Reader) (s : Connection) (op : ReadOp) : ReadLoop :=
  if s.filled then handled r s.reading false op else s.reading

/-- The reads so far are those of a loop that takes the bytes one after the other. -/
structure Follows (r : Reader) (m : SocketMsg) (s : Connection) : Prop where
  idle : s.phase ≠ .connected →
    s.reading = { ReadLoop.start m with pending := none } ∧ s.filled = false ∧ s.consumed = []
  busy : s.filled = true → s.reading.pending ≠ none
  live : ∀ op, s.reading.pending = some op → ∀ more,
    (ReadLoop.start m).readStream r (s.consumed ++ more) = (s.ahead r op).readStream r more
  accepted : s.reading.accepted <+: ((ReadLoop.start m).readStream r s.consumed).1.accepted

theorem follows_start (r : Reader) (m : SocketMsg) : Follows r m (start m) where
  idle _ := ⟨rfl, rfl, rfl⟩
  busy h := by cases h
  live op h := by cases h
  accepted := List.nil_prefix

/-- A read that is filled is the next one of the loop. -/
theorem readStream_fill (r : Reader) {s : Connection} {op : ReadOp}
    (hpending : s.reading.pending = some op) (hlen : s.needed op ≤ s.incoming.length)
    (more : Bytes) :
    s.reading.readStream r (s.incoming.take (s.needed op) ++ more) =
      ((s.fill op).ahead r op).readStream r more := by
  have hwidth : (s.incoming.take (s.needed op)).length = s.needed op := by
    rw [List.length_take, Nat.min_eq_left hlen]
  have hle : s.needed op ≤ (s.incoming.take (s.needed op) ++ more).length := by
    rw [List.length_append, hwidth]
    exact Nat.le_add_right _ _
  cases op with
  | handleReadHeader =>
      simp only [needed] at hwidth hle ⊢
      rw [ReadLoop.readStream_header r hpending hle, List.take_left' hwidth, List.drop_left' hwidth]
      rfl
  | handleReadBody =>
      simp only [needed] at hwidth hle ⊢
      rw [ReadLoop.readStream_body r hpending hle, List.take_left' hwidth, List.drop_left' hwidth]
      rfl

theorem follows_fill {r : Reader} {m : SocketMsg} {s : Connection} {op : ReadOp}
    (hf : Follows r m s) (hpending : s.reading.pending = some op) (hfilled : s.filled = false)
    (hlen : s.needed op ≤ s.incoming.length) : Follows r m (s.fill op) := by
  have hahead : s.ahead r op = s.reading := by
    rw [ahead, hfilled]
    rfl
  refine ⟨fun hphase => ?_, fun _ => ?_, fun op' hop more => ?_, ?_⟩
  · have hnone := (hf.idle hphase).1
    rw [hnone] at hpending
    cases hpending
  · rw [fill, hpending]
    exact Option.some_ne_none op
  · obtain rfl : op = op' := Option.some.inj (hpending.symm.trans hop)
    have hlive := hf.live op hpending (s.incoming.take (s.needed op) ++ more)
    rw [hahead, readStream_fill r hpending hlen, ← List.append_assoc] at hlive
    exact hlive
  · have hlive := hf.live op hpending (s.incoming.take (s.needed op))
    rw [hahead] at hlive
    simp only [fill]
    rw [hlive]
    exact ReadLoop.accepted_prefix_readStream r s.reading _

theorem follows_handleRead {r : Reader} {m : SocketMsg} {s : Connection} {op : ReadOp}
    (hf : Follows r m s) (hpending : s.reading.pending = some op) (hfilled : s.filled = true) :
    Follows r m { s with reading := handled r s.reading false op, filled := false } := by
  have hlive := hf.live op hpending
  rw [ahead, hfilled, if_pos rfl] at hlive
  refine ⟨fun hphase => ?_, fun h => ?_, fun op' _ more => hlive more, ?_⟩
  · have hnone := (hf.idle hphase).1
    rw [hnone] at hpending
    cases hpending
  · cases h
  · have hall := hlive []
    rw [List.append_nil] at hall
    rw [hall]
    exact ReadLoop.accepted_prefix_readStream r _ _

theorem follows_step {r : Reader} {w : Writer} {m : SocketMsg} {s s' : Connection} {a : Action}
    (hf : Follows r m s) (h : step r w s a = some s') : Follows r m s' := by
  cases moves_of_step h with
  | refused hphase =>
      have hconnected : s.phase ≠ .connected := by
        rw [hphase]
        decide
      exact ⟨fun _ => hf.idle hconnected, hf.busy, hf.live, hf.accepted⟩
  | connected hphase =>
      have hconnected : s.phase ≠ .connected := by
        rw [hphase]
        decide
      obtain ⟨hreading, hfilled, hconsumed⟩ := hf.idle hconnected
      refine ⟨fun hne => absurd rfl hne, fun hbusy => ?_, fun op hop more => ?_, ?_⟩
      · simp only [hfilled, Bool.false_eq_true] at hbusy
      · simp only [ahead, hfilled, hreading, hconsumed, Bool.false_eq_true, if_false,
          List.nil_append]
        rfl
      · simp only [hreading]
        exact List.nil_prefix
  | arrive => exact ⟨hf.idle, hf.busy, hf.live, hf.accepted⟩
  | fill hpending hfilled hlen => exact follows_fill hf hpending hfilled hlen
  | handleRead hpending hfilled => exact follows_handleRead hf hpending hfilled
  | failRead hpending hfilled =>
      refine ⟨fun hphase => ?_, fun hbusy => ?_, fun op hop => ?_, hf.accepted⟩
      · have hnone := (hf.idle hphase).1
        rw [hnone] at hpending
        cases hpending
      · cases hbusy
      · cases hop
  | write => exact ⟨hf.idle, hf.busy, hf.live, hf.accepted⟩

/-- A loop that waits has accepted all that arrived. -/
theorem readStream_received {r : Reader} {m : SocketMsg} {s : Connection} (hf : Follows r m s)
    (hwaits : s.Waits) :
    (ReadLoop.start m).readStream r s.received = (s.reading, s.incoming) := by
  obtain ⟨hfilled, op, hpending, hshort⟩ := hwaits
  have hahead : s.ahead r op = s.reading := by
    rw [ahead, hfilled]
    rfl
  rw [received, hf.live op hpending, hahead]
  cases op with
  | handleReadHeader => exact ReadLoop.readStream_header_short r hpending hshort
  | handleReadBody => exact ReadLoop.readStream_body_short r hpending hshort

theorem accepted_prefix_decode {r : Reader} {m : SocketMsg} {s : Connection}
    (hf : Follows r m s) : s.reading.accepted <+: (socketCodec.decode s.received).1 := by
  have hdecode := ReadLoop.readStream_accepted r (s := ReadLoop.start m) rfl s.received
  have hparts := ReadLoop.readStream_append r (ReadLoop.start m) s.consumed s.incoming
  have hnil : (ReadLoop.start m).accepted = [] := rfl
  rw [hnil, List.nil_append] at hdecode
  rw [← hdecode, received, hparts]
  exact hf.accepted.trans (ReadLoop.accepted_prefix_readStream r _ _)

/-- What `chat_client` prints is what it accepts. -/
theorem printed_step {w : Writer} {s s' : Connection} {a : Action}
    (hs : s.reading.printed = s.reading.accepted) (h : step chatClient w s a = some s') :
    s'.reading.printed = s'.reading.accepted := by
  cases moves_of_step h with
  | @handleRead op hpending hfilled =>
      cases op with
      | handleReadHeader =>
          simp only [handled, ReadLoop.handleReadHeader, Bool.false_eq_true, if_false]
          split
          · exact hs
          · exact hs
      | handleReadBody =>
          simp only [handled, ReadLoop.handleReadBody, Bool.false_eq_true, if_false, hs, chatClient]
  | _ => exact hs

/-! ### Writing -/

theorem orderly_pump_step {r : Reader} {w : Writer} {s s' : Connection} {a : Action}
    (hp : s.pump.Orderly) (h : step r w s a = some s') : s'.pump.Orderly := by
  cases moves_of_step h with
  | write hstep => exact WritePump.orderly_step hp hstep
  | _ => exact hp

theorem accepted_prefix_wires {p : WritePump} (hp : p.Orderly) :
    p.accepted <+: WritePump.wires p.delivered := by
  rcases hp with hidle | ⟨msg, rest, sent, hwriting⟩ | ⟨msg, rest, sent, hfailed⟩
  · exact hidle.accepted ▸ List.prefix_rfl
  · obtain ⟨done, hdelivered, -, haccepted⟩ := hwriting.delivered
    exact WritePump.stream_prefix hdelivered haccepted
  · obtain ⟨done, hdelivered, -, haccepted⟩ := hfailed.delivered
    exact WritePump.stream_prefix hdelivered haccepted

/-- Bytes are accepted by transfers only. -/
theorem accepted_write {w : Writer} {p q : WritePump} {a : WritePump.Action}
    (h : WritePump.step w p a = some q) (huses : usesSocket a = false) :
    q.accepted = p.accepted := by
  cases a with
  | deliver msg =>
      obtain rfl := Option.some.inj h
      obtain ⟨writes, heq⟩ := WritePump.deliver_eq p msg
      rw [heq]
  | transfer i n => cases huses
  | complete i => exact (WritePump.step_complete h).2.2.2
  | fail i => exact (WritePump.step_fail h).1
  | close =>
      obtain rfl := Option.some.inj h
      rfl

theorem accepted_prefix_write {w : Writer} {p q : WritePump} {a : WritePump.Action}
    (h : WritePump.step w p a = some q) : p.accepted <+: q.accepted := by
  cases ha : usesSocket a with
  | false => exact accepted_write h ha ▸ List.prefix_rfl
  | true =>
      cases a with
      | transfer i n =>
          simp only [WritePump.step, Option.ite_none_left_eq_some, Option.map_eq_some_iff] at h
          obtain ⟨-, write, -, rfl⟩ := h
          exact List.prefix_append _ _
      | _ => cases ha

def deliveredBy : WritePump.Action → List SocketMsg
  | .deliver msg => [msg]
  | _ => []

theorem delivered_write {w : Writer} {p q : WritePump} {a : WritePump.Action}
    (h : WritePump.step w p a = some q) : q.delivered = p.delivered ++ deliveredBy a := by
  cases a with
  | deliver msg =>
      obtain rfl := Option.some.inj h
      obtain ⟨writes, heq⟩ := WritePump.deliver_eq p msg
      rw [heq]
      rfl
  | transfer i n => exact (WritePump.step_transfer h).2.2.2.trans (List.append_nil _).symm
  | complete i => exact (WritePump.step_complete h).2.2.1.trans (List.append_nil _).symm
  | fail i =>
      simp only [WritePump.step, Option.map_eq_some_iff] at h
      obtain ⟨write, -, rfl⟩ := h
      obtain ⟨msgs, popped, writes, heq⟩ := WritePump.handleWrite_eq w (p.finish i true) true
      rw [heq]
      exact (List.append_nil _).symm
  | close =>
      obtain rfl := Option.some.inj h
      exact (List.append_nil _).symm

structure Sound (r : Reader) (m : SocketMsg) (s : Connection) : Prop where
  follows : Follows r m s
  orderly : s.pump.Orderly

theorem sound_step {r : Reader} {w : Writer} {m : SocketMsg} {s s' : Connection} {a : Action}
    (hs : Sound r m s) (h : step r w s a = some s') : Sound r m s' :=
  ⟨follows_step hs.follows h, orderly_pump_step hs.orderly h⟩

theorem sound_of_run {r : Reader} {w : Writer} {m : SocketMsg} {as : List Action}
    {s : Connection} (hrun : run (step r w) (start m) as = some s) : Sound r m s :=
  invariant (fun _ _ _ hs h => sound_step hs h) ⟨follows_start r m, WritePump.orderly_start⟩ hrun

/-- In every state that a connection of either class reaches it serves both directions. -/
theorem serves_of_run (r : Reader) (w : Writer) (m : SocketMsg) {as : List Action}
    {s : Connection} (hrun : run (step r w) (start m) as = some s) : Serves s := by
  obtain ⟨hfollows, horderly⟩ := sound_of_run hrun
  refine ⟨accepted_prefix_decode hfollows, fun hwaits => ?_, accepted_prefix_wires horderly⟩
  have hdecode := ReadLoop.readStream_accepted r (s := ReadLoop.start m) rfl s.received
  rw [readStream_received hfollows hwaits] at hdecode
  exact hdecode

/-- Two bodies are read while two messages are written. -/
def twoBodies : List Action :=
  [.connect false, .write (.deliver default), .arrive (ascii "   1a   2"), .fill,
    .write (.transfer 0 3), .handleRead false, .write (.deliver default), .fill,
    .handleRead false, .write (.transfer 0 1), .fill, .arrive (ascii "bb"), .handleRead false,
    .write (.complete 0), .fill, .write (.transfer 0 2), .handleRead false]

theorem serves_two_bodies :
    ∃ s, run (step chatClient chatClientWriter) (start default) twoBodies = some s ∧
      s.reading.accepted = [ascii "a", ascii "bb"] ∧ Serves s := by
  obtain ⟨s, hs, haccepted⟩ : ∃ s,
      run (step chatClient chatClientWriter) (start default) twoBodies = some s ∧
        s.reading.accepted = [ascii "a", ascii "bb"] :=
    exists_of_any_run (by decide +kernel)
  exact ⟨s, hs, haccepted, serves_of_run chatClient chatClientWriter default hs⟩

end Connection

end GafqEngine
