import GafqEngine.Connection.Basic
import GafqEngine.Transition.Eventually

/-!
# Closing

An error in either direction of `chat_client`, or its `close`, closes the socket. From
then on no byte is read or written any more, at most one body is printed, the one that was
read already or an empty one, and the handlers of the operations that are outstanding come
to an end: none of them starts another one for ever, so `run` of the io service returns.
-/

namespace GafqEngine

open CLib SocketMsg Transition

namespace Connection

/-- The operations of the io thread; the others come from the peer and from `main`. -/
def IoThread : Action → Prop
  | .connect _ => True
  | .fill => True
  | .handleRead _ => True
  | .write (.transfer _ _) => True
  | .write (.complete _) => True
  | .write (.fail _) => True
  | _ => False

structure Quiet (s : Connection) : Prop where
  connect : s.phase ≠ .connecting
  read : s.reading.pending = none
  writes : s.pump.writes = []

/-- The bodies that may be printed without another byte from the socket. -/
def debt (s : Connection) : ℕ :=
  match s.reading.pending, s.filled with
  | none, _ => 0
  | some .handleReadHeader, false => 0
  | some .handleReadHeader, true => 1
  | some .handleReadBody, _ => 1

def readWork (s : Connection) : ℕ :=
  match s.reading.pending, s.filled with
  | none, _ => 0
  | some .handleReadHeader, false => 1
  | some .handleReadBody, true => 2
  | some .handleReadBody, false => 3
  | some .handleReadHeader, true => 4

def connectWork (s : Connection) : ℕ := if s.phase = .connecting then 2 else 0

def writeWork (p : WritePump) : ℕ :=
  (p.writes.map fun write => if write.sent = write.size then 2 else 1).sum

def work (s : Connection) : ℕ := s.connectWork + s.readWork + writeWork s.pump

theorem closed_write {w : Writer} {p q : WritePump} {a : WritePump.Action}
    (h : WritePump.step w p a = some q) (hclosed : p.closed = true) : q.closed = true := by
  cases a with
  | deliver msg =>
      obtain rfl := Option.some.inj h
      obtain ⟨writes, heq⟩ := WritePump.deliver_eq p msg
      rw [heq]
      exact hclosed
  | transfer i n => exact absurd hclosed (by rw [(WritePump.step_transfer h).1]; decide)
  | complete i => exact (WritePump.step_complete h).1.trans hclosed
  | fail i => exact (WritePump.step_fail h).2 hclosed
  | close =>
      obtain rfl := Option.some.inj h
      rfl

/-- After a header the body is read, or the loop ends. -/
theorem handleReadHeader_cases (r : Reader) (loop : ReadLoop) :
    ∃ m, loop.handleReadHeader r false =
        { loop with readMsg := m, pending := some .handleReadBody } ∨
      loop.handleReadHeader r false = { loop with readMsg := m }.fail r := by
  refine ⟨loop.readMsg.decodeHeader.2, ?_⟩
  simp only [ReadLoop.handleReadHeader, Bool.false_eq_true, if_false]
  split
  · exact Or.inl rfl
  · exact Or.inr rfl

theorem closed_handled {r : Reader} {loop : ReadLoop} {op : ReadOp} (h : loop.closed = true) :
    (handled r loop false op).closed = true := by
  cases op with
  | handleReadBody => exact h
  | handleReadHeader =>
      obtain ⟨m, hbody | hfail⟩ := handleReadHeader_cases r loop
      · rw [handled, hbody]
        exact h
      · rw [handled, hfail, ReadLoop.fail, h]
        rfl

/-- A closed socket stays closed. -/
theorem closed_step {r : Reader} {w : Writer} {s s' : Connection} {a : Action}
    (h : step r w s a = some s') (hclosed : s.closed = true) : s'.closed = true := by
  rw [closed, Bool.or_eq_true] at hclosed ⊢
  cases moves_of_step h with
  | refused => exact hclosed
  | connected => exact hclosed
  | arrive => exact hclosed
  | fill => exact hclosed
  | handleRead => exact hclosed.imp_left closed_handled
  | failRead => exact hclosed.imp_left fun hread => by simp [ReadLoop.fail, hread]
  | write hstep => exact hclosed.imp_right (closed_write hstep)

structure Kept (s t : Connection) : Prop where
  closed : t.closed = true
  consumed : t.consumed = s.consumed
  written : t.pump.accepted = s.pump.accepted

theorem kept_step {r : Reader} {w : Writer} {s s' : Connection} {a : Action}
    (hclosed : s.closed = true) (h : step r w s a = some s') : Kept s s' := by
  refine ⟨closed_step h hclosed, ?_, ?_⟩
  · cases moves_of_step h with
    | fill hpending hfilled hlen hopen =>
        have hzero := hopen.resolve_left (by simp [hclosed])
        simp [fill, hzero]
    | _ => rfl
  · cases moves_of_step h with
    | write hstep hopen =>
        apply accepted_write hstep
        rw [← Bool.not_eq_true]
        intro huses
        rw [hopen huses] at hclosed
        cases hclosed
    | _ => rfl

theorem Kept.trans {s t u : Connection} (h : Kept s t) (h' : Kept t u) : Kept s u :=
  ⟨h'.closed, h'.consumed.trans h.consumed, h'.written.trans h.written⟩

/-- The message is the one whose body the outstanding read has got, or its body is empty. -/
def Due (s : Connection) (msg : SocketMsg) : Prop :=
  (s.reading.pending = some .handleReadBody ∧ s.filled = true ∧ msg = s.reading.readMsg) ∨
    msg.bodyLength = 0

/-- A closed socket has printed nothing since, or one body and can print no more. -/
def Prints (r : Reader) (s t : Connection) : Prop :=
  (t.reading.printed = s.reading.printed ∧
      (t.reading.pending = some .handleReadBody → t.filled = true → s.Due t.reading.readMsg)) ∨
    ∃ msg, s.Due msg ∧ t.reading.printed = s.reading.printed ++ [r.report msg] ∧ t.debt = 0

theorem prints_step {r : Reader} {w : Writer} {m : SocketMsg} {s t u : Connection} {a : Action}
    (ht : Sound r m t) (hclosed : t.closed = true) (hp : Prints r s t)
    (h : step r w t a = some u) : Prints r s u := by
  cases moves_of_step h with
  | refused => exact hp
  | arrive => exact hp
  | write => exact hp
  | connected hphase =>
      have hidle := ht.follows.idle (by rw [hphase]; decide)
      rcases hp with ⟨hsame, -⟩ | ⟨msg, hdue, hprinted, -⟩
      · exact Or.inl ⟨hsame, fun hbody => by cases hbody⟩
      · exact Or.inr ⟨msg, hdue, hprinted, by simp [debt, hidle.2.1]⟩
  | @fill op hpending hfilled hlen hopen =>
      -- only a read of no bytes is done on a closed socket
      have hzero := hopen.resolve_left (by simp [hclosed])
      cases op with
      | handleReadHeader => cases hzero
      | handleReadBody =>
          rcases hp with ⟨hsame, -⟩ | ⟨msg, -, -, hdebt⟩
          · exact Or.inl ⟨hsame, fun _ _ => Or.inr hzero⟩
          · simp [debt, hpending] at hdebt
  | @handleRead op hpending hfilled =>
      rcases hp with ⟨hsame, hbody⟩ | ⟨msg, -, -, hdebt⟩
      · cases op with
        | handleReadHeader =>
            obtain ⟨m', hread | hfail⟩ := handleReadHeader_cases r t.reading
            · rw [handled, hread]
              exact Or.inl ⟨hsame, fun _ hfill => by cases hfill⟩
            · rw [handled, hfail]
              exact Or.inl ⟨hsame, fun hread => by cases hread⟩
        | handleReadBody =>
            refine Or.inr ⟨t.reading.readMsg, hbody hpending hfilled, ?_, ?_⟩
            · simp [handled, ReadLoop.handleReadBody, hsame]
            · simp [handled, ReadLoop.handleReadBody, debt]
      · cases op with
        | handleReadHeader => simp [debt, hpending, hfilled] at hdebt
        | handleReadBody => simp [debt, hpending] at hdebt
  | failRead =>
      rcases hp with ⟨hsame, -⟩ | ⟨msg, hdue, hprinted, -⟩
      · exact Or.inl ⟨hsame, fun hbody => by cases hbody⟩
      · exact Or.inr ⟨msg, hdue, hprinted, rfl⟩

/-! ### The end of the handlers -/

theorem writeWork_step {w : Writer} {p q : WritePump} {a : WritePump.Action} (hp : p.Orderly)
    (h : WritePump.step w p a = some q) (ha : (∃ i, a = .complete i) ∨ ∃ i, a = .fail i) :
    writeWork q < writeWork p := by
  have hne : ∀ m, a ≠ .deliver m := by
    rintro m rfl
    simp at ha
  have hclose : a ≠ .close := by
    rintro rfl
    simp at ha
  have hnone : p.writes ≠ [] := by
    intro hwrites
    rcases WritePump.step_of_no_writes hwrites h with ⟨m, rfl, -⟩ | ⟨rfl, -⟩
    · exact hne m rfl
    · exact hclose rfl
  rcases hp with hidle | ⟨msg, rest, sent, hwriting⟩ | ⟨msg, rest, sent, hfailed⟩
  · exact absurd hidle.writes hnone
  · rcases WritePump.step_of_writing hwriting h with
        ⟨m, rfl, -⟩ | ⟨n, rfl, -, -⟩ | ⟨-, hsent, rfl⟩ | ⟨-, rfl⟩ | ⟨rfl, -⟩
    · exact absurd rfl (hne m)
    · simp at ha
    · rw [writeWork, writeWork, hwriting.writes]
      rcases WritePump.orderly_complete w hwriting hsent with ⟨-, hidle⟩ | ⟨next, rest', -, hnext⟩
      · simp [hidle.writes, hsent]
      · have hsize : next.length ≠ 0 := by
          rw [SocketMsg.length, headerLength]
          omega
        simp [hnext.writes, hsent, hsize.symm]
    · rw [writeWork, writeWork, hwriting.writes, (WritePump.failed_fail w hwriting).writes]
      simp only [List.map_nil, List.sum_nil, List.map_cons, List.sum_cons]
      split
      · decide
      · decide
    · exact absurd rfl hclose
  · exact absurd hfailed.writes hnone

/-- On a closed socket each operation of the io thread leaves fewer behind. -/
theorem work_step {r : Reader} {w : Writer} {m : SocketMsg} {s s' : Connection} {a : Action}
    (hs : Sound r m s) (hclosed : s.closed = true) (ha : IoThread a)
    (h : step r w s a = some s') : s'.work < s.work := by
  cases moves_of_step h with
  | refused hphase => simp [work, connectWork, hphase, readWork]
  | connected hphase =>
      have hidle := hs.follows.idle (by rw [hphase]; decide)
      simp [work, connectWork, hphase, readWork, hidle.1, hidle.2.1]
  | arrive => exact absurd ha id
  | @fill op hpending hfilled hlen hopen =>
      have hzero := hopen.resolve_left (by simp [hclosed])
      cases op with
      | handleReadHeader => cases hzero
      | handleReadBody => simp [work, connectWork, readWork, fill, hpending, hfilled]
  | @handleRead op hpending hfilled =>
      cases op with
      | handleReadHeader =>
          obtain ⟨m, hbody | hfail⟩ := handleReadHeader_cases r s.reading
          · simp [work, connectWork, readWork, hpending, hfilled, handled, hbody]
          · simp [work, connectWork, readWork, hpending, hfilled, handled, hfail, ReadLoop.fail]
      | handleReadBody =>
          simp [work, connectWork, readWork, hpending, hfilled, handled, ReadLoop.handleReadBody]
  | @failRead op hpending hfilled =>
      cases op with
      | handleReadHeader => simp [work, connectWork, readWork, hpending, hfilled, ReadLoop.fail]
      | handleReadBody => simp [work, connectWork, readWork, hpending, hfilled, ReadLoop.fail]
  | @write b p hstep hopen =>
      have hlt : writeWork p < writeWork s.pump := by
        apply writeWork_step hs.orderly hstep
        cases b with
        | deliver msg => exact absurd ha id
        | transfer i n =>
            rw [hopen rfl] at hclosed
            cases hclosed
        | complete i => exact Or.inl ⟨i, rfl⟩
        | fail i => exact Or.inr ⟨i, rfl⟩
        | close => exact absurd ha id
      exact Nat.add_lt_add_left hlt _

/-- While something is outstanding an operation of the io thread can end. -/
theorem io_progress {r : Reader} {w : Writer} {s : Connection} (h : ¬ Quiet s) :
    ∃ a t, IoThread a ∧ step r w s a = some t := by
  by_cases hphase : s.phase = .connecting
  · exact ⟨.connect true, _, trivial, if_pos hphase⟩
  · cases hpending : s.reading.pending with
    | some op =>
        refine ⟨.handleRead (!s.filled),
          { s with reading := handled r s.reading (!s.filled) op, filled := false }, trivial, ?_⟩
        simp [step, hpending]
    | none =>
        cases hwrites : s.pump.writes with
        | nil => exact absurd ⟨hphase, hpending, hwrites⟩ h
        | cons write rest =>
            refine ⟨.write (.fail 0),
              { s with pump := (s.pump.finish 0 true).handleWrite w true }, trivial, ?_⟩
            simp [step, usesSocket, WritePump.step, hwrites]

structure Ends (r : Reader) (w : Writer) (s : Connection) : Prop where
  consumed : ∀ as t, run (step r w) s as = some t → t.consumed = s.consumed
  written : ∀ as t, run (step r w) s as = some t → t.pump.accepted = s.pump.accepted
  printed : ∀ as t, run (step r w) s as = some t → t.reading.printed = s.reading.printed ∨
    ∃ msg, s.Due msg ∧ t.reading.printed = s.reading.printed ++ [r.report msg]
  ends : Eventually (step r w) IoThread Quiet s

theorem ends_of_closed {r : Reader} {w : Writer} {m : SocketMsg} {s : Connection}
    (hs : Sound r m s) (hclosed : s.closed = true) : Ends r w s := by
  have hkept : ∀ as t, run (step r w) s as = some t → Kept s t ∧ Prints r s t := by
    intro as t hrun
    have hinv : Sound r m t ∧ Kept s t ∧ Prints r s t :=
      invariant (I := fun t => Sound r m t ∧ Kept s t ∧ Prints r s t)
        (fun u v a hu hstep =>
          ⟨sound_step hu.1 hstep, hu.2.1.trans (kept_step hu.2.1.closed hstep),
            prints_step hu.1 hu.2.1.closed hu.2.2 hstep⟩)
        ⟨hs, ⟨hclosed, rfl, rfl⟩, Or.inl ⟨rfl, fun hbody hfill => Or.inl ⟨hbody, hfill, rfl⟩⟩⟩ hrun
    exact hinv.2
  refine ⟨fun as t hrun => (hkept as t hrun).1.consumed,
    fun as t hrun => (hkept as t hrun).1.written, fun as t hrun => ?_, ?_⟩
  · rcases (hkept as t hrun).2 with ⟨hsame, -⟩ | ⟨msg, hdue, hprinted, -⟩
    · exact Or.inl hsame
    · exact Or.inr ⟨msg, hdue, hprinted⟩
  · apply eventually_of_measure (I := fun t => Sound r m t ∧ t.closed = true) work
    · exact fun t _ hgoal => io_progress hgoal
    · intro t a u ht _ ha hstep
      exact ⟨⟨sound_step ht.1 hstep, closed_step hstep ht.2⟩, work_step ht.1 ht.2 ha hstep⟩
    · exact ⟨hs, hclosed⟩

/-! ### The client -/

structure ErrorCloses (s : Connection) : Prop where
  read : s.phase = .connected → s.reading.pending = none → s.reading.closed = true
  write : s.pump.failed = true → s.pump.closed = true

theorem failed_write {p q : WritePump} {a : WritePump.Action}
    (h : WritePump.step chatClientWriter p a = some q)
    (hp : p.failed = true → p.closed = true) (hq : q.failed = true) : q.closed = true := by
  cases a with
  | deliver msg =>
      obtain rfl := Option.some.inj h
      obtain ⟨writes, heq⟩ := WritePump.deliver_eq p msg
      rw [heq] at hq ⊢
      exact hp hq
  | transfer i n =>
      obtain ⟨-, hclosed, hfailed, -⟩ := WritePump.step_transfer h
      exact hclosed.trans (hp (hfailed ▸ hq))
  | complete i =>
      obtain ⟨hclosed, hfailed, -⟩ := WritePump.step_complete h
      exact hclosed.trans (hp (hfailed ▸ hq))
  | fail i =>
      simp only [WritePump.step, Option.map_eq_some_iff] at h
      obtain ⟨write, -, rfl⟩ := h
      rfl
  | close =>
      obtain rfl := Option.some.inj h
      rfl

theorem errorCloses_step {s s' : Connection} {a : Action} (hc : ErrorCloses s)
    (h : step chatClient chatClientWriter s a = some s') : ErrorCloses s' := by
  cases moves_of_step h with
  | refused => exact ⟨fun hphase => (by cases hphase), hc.write⟩
  | connected => exact ⟨fun _ hnone => (by cases hnone), hc.write⟩
  | arrive => exact ⟨hc.read, hc.write⟩
  | fill => exact ⟨hc.read, hc.write⟩
  | @handleRead op hpending hfilled =>
      refine ⟨fun _ hnone => ?_, hc.write⟩
      cases op with
      | handleReadBody => cases hnone
      | handleReadHeader =>
          obtain ⟨m, hbody | hfail⟩ := handleReadHeader_cases chatClient s.reading
          · simp [handled, hbody] at hnone
          · rw [handled, hfail]
            simp [ReadLoop.fail, chatClient]
  | failRead => exact ⟨fun _ _ => by simp [ReadLoop.fail, chatClient], hc.write⟩
  | write hstep => exact ⟨hc.read, failed_write hstep hc.write⟩

/-- A client whose read or write failed is closed, and a closed one comes to its end. -/
structure ShutsDown (s : Connection) : Prop where
  read : s.phase = .connected → s.reading.pending = none → s.closed = true
  write : s.pump.failed = true → s.closed = true
  ends : s.closed = true → Ends chatClient chatClientWriter s

/-- Every state that the client reaches shuts down after an error and after `close`. -/
theorem shutsDown_of_run (m : SocketMsg) {as : List Action} {s : Connection}
    (hrun : run (step chatClient chatClientWriter) (start m) as = some s) : ShutsDown s := by
  have hcloses : ErrorCloses s :=
    invariant (fun _ _ _ hc h => errorCloses_step hc h)
      ⟨fun hphase => (by cases hphase), fun hfailed => (by cases hfailed)⟩ hrun
  refine ⟨fun hphase hnone => ?_, fun hfailed => ?_, ends_of_closed (sound_of_run hrun)⟩
  · rw [closed, hcloses.read hphase hnone]
    rfl
  · rw [closed, hcloses.write hfailed, Bool.or_true]

/-- `main` closes the client while a body is read and a message is written. -/
theorem shutsDown_while_busy :
    ∃ s, run (step chatClient chatClientWriter) (start default)
        [.connect false, .write (.deliver default), .arrive (ascii "   1a"), .fill,
          .write (.transfer 0 3), .handleRead false, .fill, .write .close] = some s ∧
      ShutsDown s := by
  have hrun : (run (step chatClient chatClientWriter) (start default)
      [.connect false, .write (.deliver default), .arrive (ascii "   1a"), .fill,
        .write (.transfer 0 3), .handleRead false, .fill, .write .close]).isSome := by
    decide +kernel
  obtain ⟨s, hs⟩ := Option.isSome_iff_exists.mp hrun
  exact ⟨s, hs, shutsDown_of_run default hs⟩

end Connection

end GafqEngine
