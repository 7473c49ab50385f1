import GafqEngine.SocketMsg.Frame
import GafqEngine.Transition.Run

/-!
# The write pump

`chat_client` and `socket_session` write alike: a message is pushed to
`write_msgs_` and an `async_write` of the front is started if the queue was
empty; when a write completes the front is popped and the next one is started.
They differ in what a failed write does, so the pump is written once over a
`Writer`.

An outstanding write refers to the element of the deque that was in front when
it was started, and takes its bytes from there whenever the socket accepts some.
Elements are numbered in the order of their push, so that the number of pops
tells which of them are still there.
-/

namespace GafqEngine

open CLib

/-- What a class of writers does at a failure. -/
structure Writer where
  closesOnError : Bool

/-- `chat_client` calls `do_close`. -/
def chatClientWriter : Writer where
  closesOnError := true

/-- `socket_session` does nothing. -/
def socketSessionWriter : Writer where
  closesOnError := false

/-- An outstanding `async_write`: the element it refers to, the size of its
buffer, and how many bytes of it were accepted. -/
structure AsyncWrite where
  index : ℕ
  size : ℕ
  sent : ℕ

/-- The pump: `write_msgs_` and how many elements were popped from it, the
outstanding writes, the bytes the socket accepted, whether it was closed; then
whether a write has failed, and the messages that were pushed. -/
structure WritePump where
  writeMsgs : List SocketMsg
  popped : ℕ
  writes : List AsyncWrite
  accepted : Bytes
  closed : Bool
  failed : Bool
  delivered : List SocketMsg

namespace WritePump

def start : WritePump where
  writeMsgs := []
  popped := 0
  writes := []
  accepted := []
  closed := false
  failed := false
  delivered := []

def asyncWrite (p : WritePump) : WritePump :=
  match p.writeMsgs with
  | [] => p
  | msg :: _ =>
      { p with writes := p.writes ++ [{ index := p.popped, size := msg.length, sent := 0 }] }

/-- `do_write` of `chat_client`, `deliver` of `socket_session`. -/
def deliver (p : WritePump) (msg : SocketMsg) : WritePump :=
  let writeInProgress := !p.writeMsgs.isEmpty
  let p := { p with writeMsgs := p.writeMsgs ++ [msg], delivered := p.delivered ++ [msg] }
  if !writeInProgress then p.asyncWrite else p

def doClose (p : WritePump) : WritePump := { p with closed := true }

def handleWrite (w : Writer) (p : WritePump) (error : Bool) : WritePump :=
  if !error then
    let p := { p with writeMsgs := p.writeMsgs.tail, popped := p.popped + 1 }
    if !p.writeMsgs.isEmpty then p.asyncWrite else p
  else if w.closesOnError then p.doClose
  else p

/-- The bytes that an outstanding write finds in its buffer: none if the element
was popped meanwhile. -/
def buffer (p : WritePump) (write : AsyncWrite) : Bytes :=
  if write.index < p.popped then []
  else
    match p.writeMsgs[write.index - p.popped]? with
    | none => []
    | some msg => msg.data.take write.size

/-- A message is delivered, an outstanding write has bytes accepted, completes or
fails, or the socket is closed. -/
inductive Action where
  | deliver (msg : SocketMsg)
  | transfer (i n : ℕ)
  | complete (i : ℕ)
  | fail (i : ℕ)
  | close

def transfer (p : WritePump) (i : ℕ) (write : AsyncWrite) (n : ℕ) : WritePump :=
  let bytes := ((p.buffer write).drop write.sent).take n
  { p with
    accepted := p.accepted ++ bytes
    writes := p.writes.set i { write with sent := write.sent + bytes.length } }

def finish (p : WritePump) (i : ℕ) (error : Bool) : WritePump :=
  { p with writes := p.writes.eraseIdx i, failed := p.failed || error }

/-- One step. A closed socket accepts nothing, and a write completes without
error when its whole buffer was accepted. -/
def step (w : Writer) (p : WritePump) : Action → Option WritePump
  | .deliver msg => some (p.deliver msg)
  | .transfer i n =>
      if p.closed then none else p.writes[i]?.map fun write => p.transfer i write n
  | .complete i =>
      p.writes[i]?.bind fun write =>
        if write.sent = write.size then some ((p.finish i false).handleWrite w false) else none
  | .fail i => p.writes[i]?.map fun _ => (p.finish i true).handleWrite w true
  | .close => some p.doClose

def wires (msgs : List SocketMsg) : Bytes := msgs.flatMap SocketMsg.wire

theorem wires_append (as bs : List SocketMsg) : wires (as ++ bs) = wires as ++ wires bs :=
  List.flatMap_append

theorem wires_singleton (msg : SocketMsg) : wires [msg] = msg.wire := by
  rw [wires, List.flatMap_singleton]

structure Idle (p : WritePump) : Prop where
  failed : p.failed = false
  writes : p.writes = []
  delivered : p.popped = p.delivered.length
  writeMsgs : p.writeMsgs = []
  accepted : p.accepted = wires p.delivered

/-- The front `msg` of the queue is being written, with `sent` bytes accepted. -/
structure Writing (p : WritePump) (msg : SocketMsg) (rest : List SocketMsg) (sent : ℕ) : Prop where
  failed : p.failed = false
  writes : p.writes = [{ index := p.popped, size := msg.length, sent := sent }]
  writeMsgs : p.writeMsgs = msg :: rest
  delivered : ∃ done, p.delivered = done ++ msg :: rest ∧ done.length = p.popped ∧
    p.accepted = wires done ++ msg.wire.take sent
  bound : sent ≤ msg.wire.length

/-- A write has failed, with `sent` bytes of its message accepted. -/
structure Failed (p : WritePump) (msg : SocketMsg) (rest : List SocketMsg) (sent : ℕ) : Prop where
  failed : p.failed = true
  writes : p.writes = []
  writeMsgs : p.writeMsgs = msg :: rest
  delivered : ∃ done, p.delivered = done ++ msg :: rest ∧ done.length = p.popped ∧
    p.accepted = wires done ++ msg.wire.take sent

def Orderly (p : WritePump) : Prop :=
  Idle p ∨ (∃ msg rest sent, Writing p msg rest sent) ∨ ∃ msg rest sent, Failed p msg rest sent

theorem orderly_start : Orderly start := Or.inl ⟨rfl, rfl, rfl, rfl, rfl⟩

theorem asyncWrite_eq (p : WritePump) : ∃ writes, p.asyncWrite = { p with writes := writes } := by
  unfold asyncWrite
  split
  · exact ⟨p.writes, rfl⟩
  · exact ⟨_, rfl⟩

theorem deliver_eq (p : WritePump) (msg : SocketMsg) :
    ∃ writes, p.deliver msg = { p with
      writeMsgs := p.writeMsgs ++ [msg]
      delivered := p.delivered ++ [msg]
      writes := writes } := by
  obtain ⟨writes, hwrites⟩ := asyncWrite_eq { p with
    writeMsgs := p.writeMsgs ++ [msg], delivered := p.delivered ++ [msg] }
  cases h : p.writeMsgs with
  | nil => exact ⟨writes, by simpa [deliver, h] using hwrites⟩
  | cons front rest => exact ⟨p.writes, by simp [deliver, h]⟩

/-- The handler of a write touches the queue and the outstanding writes, and after
an error it may close the socket. -/
theorem handleWrite_eq (w : Writer) (p : WritePump) (error : Bool) :
    ∃ writeMsgs popped writes, p.handleWrite w error = { p with
      writeMsgs := writeMsgs
      popped := popped
      writes := writes
      closed := p.closed || (error && w.closesOnError) } := by
  cases error with
  | true =>
      refine ⟨p.writeMsgs, p.popped, p.writes, ?_⟩
      cases hw : w.closesOnError with
      | true => simp [handleWrite, hw, doClose]
      | false => simp [handleWrite, hw]
  | false =>
      obtain ⟨writes, hwrites⟩ := asyncWrite_eq { p with
        writeMsgs := p.writeMsgs.tail, popped := p.popped + 1 }
      cases htail : p.writeMsgs.tail with
      | nil => exact ⟨[], p.popped + 1, p.writes, by simp [handleWrite, htail]⟩
      | cons next rest =>
          refine ⟨next :: rest, p.popped + 1, writes, ?_⟩
          rw [htail] at hwrites
          simp [handleWrite, htail, hwrites]

theorem step_transfer {w : Writer} {p q : WritePump} {i n : ℕ}
    (h : step w p (.transfer i n) = some q) :
    p.closed = false ∧ q.closed = p.closed ∧ q.failed = p.failed ∧ q.delivered = p.delivered := by
  simp only [step, Option.ite_none_left_eq_some, Option.map_eq_some_iff] at h
  obtain ⟨hclosed, write, -, rfl⟩ := h
  exact ⟨by simpa using hclosed, rfl, rfl, rfl⟩

theorem step_complete {w : Writer} {p q : WritePump} {i : ℕ}
    (h : step w p (.complete i) = some q) :
    q.closed = p.closed ∧ q.failed = p.failed ∧ q.delivered = p.delivered ∧
      q.accepted = p.accepted := by
  simp only [step, Option.bind_eq_some_iff, Option.ite_none_right_eq_some,
    Option.some.injEq] at h
  obtain ⟨write, -, -, rfl⟩ := h
  obtain ⟨msgs, popped, writes, heq⟩ := handleWrite_eq w (p.finish i false) false
  rw [heq]
  simp [finish]

theorem step_fail {w : Writer} {p q : WritePump} {i : ℕ} (h : step w p (.fail i) = some q) :
    q.accepted = p.accepted ∧ (p.closed = true → q.closed = true) := by
  simp only [step, Option.map_eq_some_iff] at h
  obtain ⟨write, -, rfl⟩ := h
  obtain ⟨msgs, popped, writes, heq⟩ := handleWrite_eq w (p.finish i true) true
  rw [heq]
  exact ⟨rfl, fun hclosed => by simp [finish, hclosed]⟩

/-- The first message of an empty queue is written at once. -/
theorem writing_deliver_of_idle {p : WritePump} (h : Idle p) (msg : SocketMsg) :
    Writing (p.deliver msg) msg [] 0 := by
  have hfront : p.deliver msg =
      { p with
        writeMsgs := [msg]
        delivered := p.delivered ++ [msg]
        writes := [{ index := p.popped, size := msg.length, sent := 0 }] } := by
    simp [deliver, h.writeMsgs, asyncWrite, h.writes]
  rw [hfront]
  refine ⟨h.failed, rfl, rfl, ⟨p.delivered, rfl, h.delivered.symm, ?_⟩, Nat.zero_le _⟩
  rw [List.take_zero, List.append_nil]
  exact h.accepted

theorem deliver_of_cons {p : WritePump} {front : SocketMsg} {rest : List SocketMsg}
    (h : p.writeMsgs = front :: rest) (msg : SocketMsg) :
    p.deliver msg =
      { p with writeMsgs := front :: (rest ++ [msg]), delivered := p.delivered ++ [msg] } := by
  simp [deliver, h]

theorem writing_deliver {p : WritePump} {front : SocketMsg} {rest : List SocketMsg} {sent : ℕ}
    (h : Writing p front rest sent) (msg : SocketMsg) :
    Writing (p.deliver msg) front (rest ++ [msg]) sent := by
  obtain ⟨done, hdelivered, hlen, haccepted⟩ := h.delivered
  rw [deliver_of_cons h.writeMsgs msg]
  exact ⟨h.failed, h.writes, rfl, ⟨done, by simp [hdelivered], hlen, haccepted⟩, h.bound⟩

theorem failed_deliver {p : WritePump} {front : SocketMsg} {rest : List SocketMsg} {sent : ℕ}
    (h : Failed p front rest sent) (msg : SocketMsg) :
    Failed (p.deliver msg) front (rest ++ [msg]) sent := by
  obtain ⟨done, hdelivered, hlen, haccepted⟩ := h.delivered
  rw [deliver_of_cons h.writeMsgs msg]
  exact ⟨h.failed, h.writes, rfl, ⟨done, by simp [hdelivered], hlen, haccepted⟩⟩

theorem buffer_of_writing {p : WritePump} {msg : SocketMsg} {rest : List SocketMsg} {sent : ℕ}
    (h : Writing p msg rest sent) :
    p.buffer { index := p.popped, size := msg.length, sent := sent } = msg.wire := by
  simp [buffer, h.writeMsgs, SocketMsg.wire]

theorem writing_transfer {p : WritePump} {msg : SocketMsg} {rest : List SocketMsg} {sent : ℕ}
    (h : Writing p msg rest sent) (n : ℕ) :
    Writing (p.transfer 0 { index := p.popped, size := msg.length, sent := sent } n) msg rest
      (sent + ((msg.wire.drop sent).take n).length) := by
  obtain ⟨done, hdelivered, hlen, haccepted⟩ := h.delivered
  have hbuffer := buffer_of_writing h
  refine ⟨h.failed, ?_, h.writeMsgs, ⟨done, hdelivered, hlen, ?_⟩, ?_⟩
  · simp [transfer, h.writes, hbuffer]
  · have htake : (msg.wire.drop sent).take ((msg.wire.drop sent).take n).length =
        (msg.wire.drop sent).take n := by
      rw [List.take_eq_take_iff, List.length_take]
      omega
    simp only [transfer, hbuffer, haccepted]
    rw [List.append_assoc, List.take_add, htake]
  · have hbound := h.bound
    rw [List.length_take, List.length_drop]
    omega

theorem wire_take_of_complete {msg : SocketMsg} {sent : ℕ} (hbound : sent ≤ msg.wire.length)
    (h : sent = msg.length) : msg.wire.take sent = msg.wire := by
  have hle : msg.wire.length ≤ msg.length := by
    rw [SocketMsg.wire, List.length_take]
    exact Nat.min_le_left _ _
  exact List.take_of_length_le (by omega)

/-- A completed write makes room for the next message, if there is one. -/
theorem orderly_complete {p : WritePump} {msg : SocketMsg} {rest : List SocketMsg} {sent : ℕ}
    (w : Writer) (h : Writing p msg rest sent) (hsent : sent = msg.length) :
    (rest = [] ∧ Idle ((p.finish 0 false).handleWrite w false)) ∨
      ∃ next rest', rest = next :: rest' ∧
        Writing ((p.finish 0 false).handleWrite w false) next rest' 0 := by
  obtain ⟨done, hdelivered, hlen, haccepted⟩ := h.delivered
  rw [wire_take_of_complete h.bound hsent] at haccepted
  have hdone : p.accepted = wires (done ++ [msg]) := by
    rw [haccepted, wires_append, wires_singleton]
  cases rest with
  | nil =>
      refine Or.inl ⟨rfl, ?_⟩
      have hpop : (p.finish 0 false).handleWrite w false =
          { p with writes := [], writeMsgs := [], popped := p.popped + 1 } := by
        simp [handleWrite, finish, h.writes, h.writeMsgs]
      rw [hpop]
      refine ⟨h.failed, rfl, ?_, rfl, ?_⟩
      · simp [hdelivered, hlen]
      · simpa [hdelivered] using hdone
  | cons next rest' =>
      refine Or.inr ⟨next, rest', rfl, ?_⟩
      have hpop : (p.finish 0 false).handleWrite w false =
          { p with
            writeMsgs := next :: rest'
            popped := p.popped + 1
            writes := [{ index := p.popped + 1, size := next.length, sent := 0 }] } := by
        simp [handleWrite, finish, h.writes, h.writeMsgs, asyncWrite]
      rw [hpop]
      refine ⟨h.failed, rfl, rfl, ⟨done ++ [msg], ?_, ?_, ?_⟩, Nat.zero_le _⟩
      · simp [hdelivered]
      · simp [hlen]
      · rw [List.take_zero, List.append_nil]
        exact hdone

/-- A failed write leaves its message in front, and no write is outstanding. -/
theorem failed_fail {p : WritePump} {msg : SocketMsg} {rest : List SocketMsg} {sent : ℕ}
    (w : Writer) (h : Writing p msg rest sent) :
    Failed ((p.finish 0 true).handleWrite w true) msg rest sent := by
  have hfinish : Failed (p.finish 0 true) msg rest sent :=
    ⟨by simp [finish], by simp [finish, h.writes], h.writeMsgs, h.delivered⟩
  unfold handleWrite
  cases hw : w.closesOnError with
  | true => exact ⟨hfinish.failed, hfinish.writes, hfinish.writeMsgs, hfinish.delivered⟩
  | false => simpa [hw] using hfinish

/-- What a step can be when the front message is being written. -/
theorem step_of_writing {w : Writer} {p q : WritePump} {a : Action} {msg : SocketMsg}
    {rest : List SocketMsg} {sent : ℕ} (h : Writing p msg rest sent) (hstep : step w p a = some q) :
    (∃ m, a = .deliver m ∧ q = p.deliver m) ∨
      (∃ n, a = .transfer 0 n ∧ p.closed = false ∧
        q = p.transfer 0 { index := p.popped, size := msg.length, sent := sent } n) ∨
      (a = .complete 0 ∧ sent = msg.length ∧ q = (p.finish 0 false).handleWrite w false) ∨
      (a = .fail 0 ∧ q = (p.finish 0 true).handleWrite w true) ∨
      (a = .close ∧ q = p.doClose) := by
  have hget : ∀ i write, p.writes[i]? = some write →
      i = 0 ∧ write = { index := p.popped, size := msg.length, sent := sent } := by
    intro i write hi
    rw [h.writes] at hi
    cases i with
    | zero => exact ⟨rfl, (Option.some.inj hi).symm⟩
    | succ i => simp at hi
  cases a with
  | deliver m => exact Or.inl ⟨m, rfl, (Option.some.inj hstep).symm⟩
  | transfer i n =>
      simp only [step, Option.ite_none_left_eq_some, Option.map_eq_some_iff] at hstep
      obtain ⟨hclosed, write, hi, rfl⟩ := hstep
      obtain ⟨rfl, rfl⟩ := hget i write hi
      exact Or.inr (Or.inl ⟨n, rfl, by simpa using hclosed, rfl⟩)
  | complete i =>
      simp only [step, Option.bind_eq_some_iff, Option.ite_none_right_eq_some,
        Option.some.injEq] at hstep
      obtain ⟨write, hi, hsent, rfl⟩ := hstep
      obtain ⟨rfl, rfl⟩ := hget i write hi
      exact Or.inr (Or.inr (Or.inl ⟨rfl, hsent, rfl⟩))
  | fail i =>
      simp only [step, Option.map_eq_some_iff] at hstep
      obtain ⟨write, hi, rfl⟩ := hstep
      obtain ⟨rfl, -⟩ := hget i write hi
      exact Or.inr (Or.inr (Or.inr (Or.inl ⟨rfl, rfl⟩)))
  | close => exact Or.inr (Or.inr (Or.inr (Or.inr ⟨rfl, (Option.some.inj hstep).symm⟩)))

/-- Without an outstanding write only a delivery or a close can follow. -/
theorem step_of_no_writes {w : Writer} {p q : WritePump} {a : Action} (h : p.writes = [])
    (hstep : step w p a = some q) :
    (∃ m, a = .deliver m ∧ q = p.deliver m) ∨ (a = .close ∧ q = p.doClose) := by
  cases a with
  | deliver m => exact Or.inl ⟨m, rfl, (Option.some.inj hstep).symm⟩
  | transfer i n => simp [step, h] at hstep
  | complete i => simp [step, h] at hstep
  | fail i => simp [step, h] at hstep
  | close => exact Or.inr ⟨rfl, (Option.some.inj hstep).symm⟩

theorem idle_doClose {p : WritePump} (h : Idle p) : Idle p.doClose :=
  ⟨h.failed, h.writes, h.delivered, h.writeMsgs, h.accepted⟩

theorem writing_doClose {p : WritePump} {msg : SocketMsg} {rest : List SocketMsg} {sent : ℕ}
    (h : Writing p msg rest sent) : Writing p.doClose msg rest sent :=
  ⟨h.failed, h.writes, h.writeMsgs, h.delivered, h.bound⟩

theorem failed_step {w : Writer} {p q : WritePump} {a : Action} {msg : SocketMsg}
    {rest : List SocketMsg} {sent : ℕ} (h : Failed p msg rest sent) (hstep : step w p a = some q) :
    q.accepted = p.accepted ∧ ∃ rest', Failed q msg rest' sent := by
  rcases step_of_no_writes h.writes hstep with ⟨m, -, rfl⟩ | ⟨-, rfl⟩
  · refine ⟨?_, _, failed_deliver h m⟩
    rw [deliver_of_cons h.writeMsgs m]
  · exact ⟨rfl, rest, h.failed, h.writes, h.writeMsgs, h.delivered⟩

theorem orderly_step {w : Writer} {p q : WritePump} {a : Action} (h : Orderly p)
    (hstep : step w p a = some q) : Orderly q := by
  rcases h with hidle | ⟨msg, rest, sent, hwriting⟩ | ⟨msg, rest, sent, hfailed⟩
  · rcases step_of_no_writes hidle.writes hstep with ⟨m, -, rfl⟩ | ⟨-, rfl⟩
    · exact Or.inr (Or.inl ⟨m, [], 0, writing_deliver_of_idle hidle m⟩)
    · exact Or.inl (idle_doClose hidle)
  · rcases step_of_writing hwriting hstep with
        ⟨m, -, rfl⟩ | ⟨n, -, -, rfl⟩ | ⟨-, hsent, rfl⟩ | ⟨-, rfl⟩ | ⟨-, rfl⟩
    · exact Or.inr (Or.inl ⟨msg, _, sent, writing_deliver hwriting m⟩)
    · exact Or.inr (Or.inl ⟨msg, rest, _, writing_transfer hwriting n⟩)
    · rcases orderly_complete w hwriting hsent with ⟨-, hidle⟩ | ⟨next, rest', -, hnext⟩
      · exact Or.inl hidle
      · exact Or.inr (Or.inl ⟨next, rest', 0, hnext⟩)
    · exact Or.inr (Or.inr ⟨msg, rest, sent, failed_fail w hwriting⟩)
    · exact Or.inr (Or.inl ⟨msg, rest, sent, writing_doClose hwriting⟩)
  · obtain ⟨-, rest', hq⟩ := failed_step hfailed hstep
    exact Or.inr (Or.inr ⟨msg, rest', sent, hq⟩)

end WritePump

end GafqEngine
