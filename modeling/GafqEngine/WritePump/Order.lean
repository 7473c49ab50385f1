import GafqEngine.WritePump.Basic

/-!
# The order of the written bytes

From the phases of the pump: in every state of a run at most one write is
outstanding, it writes the front message, and what the socket accepted is a
prefix of the messages in the order of their delivery. A failed write leaves its
message in the queue, so later deliveries find a write in progress and nothing is
written any more.
-/

namespace GafqEngine

open CLib Transition

namespace WritePump

/-- The pump in order: one write at a time, of the front message, which stays
where it is until the write completes; and the socket accepted a prefix of the
messages, to which nothing is added after a failure. -/
structure InOrder (w : Writer) (p : WritePump) : Prop where
  single : p.writes.length ≤ 1
  busy : p.failed = false → (p.writes.length = 1 ↔ p.writeMsgs ≠ [])
  front : ∀ write ∈ p.writes, write.index = p.popped ∧ ∃ msg, p.writeMsgs.head? = some msg ∧
    p.delivered[write.index]? = some msg ∧ write.size = msg.length
  held : p.writes ≠ [] → ∀ a q, (∀ i, a ≠ .complete i) → step w p a = some q →
    q.popped = p.popped ∧ q.writeMsgs.head? = p.writeMsgs.head?
  stream : p.accepted <+: wires p.delivered
  silent : p.failed = true → ∀ as q, run (step w) p as = some q → q.accepted = p.accepted

theorem inOrder_of_idle {w : Writer} {p : WritePump} (h : Idle p) : InOrder w p where
  single := by simp [h.writes]
  busy _ := by simp [h.writes, h.writeMsgs]
  front write hw := by simp [h.writes] at hw
  held hw := absurd h.writes hw
  stream := h.accepted ▸ List.prefix_rfl
  silent hf := by simp [h.failed] at hf

/-- The part of a message that was accepted continues the messages before it. -/
theorem stream_prefix {p : WritePump} {done rest : List SocketMsg} {msg : SocketMsg} {sent : ℕ}
    (hdelivered : p.delivered = done ++ msg :: rest)
    (haccepted : p.accepted = wires done ++ msg.wire.take sent) :
    p.accepted <+: wires p.delivered := by
  refine ⟨msg.wire.drop sent ++ wires rest, ?_⟩
  have hcons : wires (msg :: rest) = msg.wire ++ wires rest := List.flatMap_cons
  rw [haccepted, hdelivered, wires_append, hcons, List.append_assoc, ← List.append_assoc
    (msg.wire.take sent), List.take_append_drop]

/-- No step but its completion takes the message away from the write. -/
theorem held_of_writing {w : Writer} {p q : WritePump} {a : Action} {msg : SocketMsg}
    {rest : List SocketMsg} {sent : ℕ} (h : Writing p msg rest sent)
    (ha : ∀ i, a ≠ .complete i) (hstep : step w p a = some q) :
    q.popped = p.popped ∧ q.writeMsgs.head? = p.writeMsgs.head? := by
  rcases step_of_writing h hstep with
      ⟨m, -, rfl⟩ | ⟨n, -, -, rfl⟩ | ⟨hc, -, -⟩ | ⟨-, rfl⟩ | ⟨-, rfl⟩
  · rw [deliver_of_cons h.writeMsgs m, h.writeMsgs]
    exact ⟨rfl, rfl⟩
  · exact ⟨rfl, rfl⟩
  · exact absurd hc (ha 0)
  · unfold handleWrite
    cases w.closesOnError with
    | true => exact ⟨rfl, rfl⟩
    | false => exact ⟨rfl, rfl⟩
  · exact ⟨rfl, rfl⟩

theorem inOrder_of_writing {w : Writer} {p : WritePump} {msg : SocketMsg}
    {rest : List SocketMsg} {sent : ℕ} (h : Writing p msg rest sent) : InOrder w p := by
  obtain ⟨done, hdelivered, hlen, haccepted⟩ := h.delivered
  refine ⟨by simp [h.writes], fun _ => by simp [h.writes, h.writeMsgs], ?_,
    fun _ a q => held_of_writing h, stream_prefix hdelivered haccepted, ?_⟩
  · intro write hw
    rw [h.writes, List.mem_singleton] at hw
    subst hw
    refine ⟨rfl, msg, by rw [h.writeMsgs]; rfl, ?_, rfl⟩
    simp [hdelivered, ← hlen]
  · intro hf
    simp [h.failed] at hf

theorem accepted_of_failed {w : Writer} {p q : WritePump} {as : List Action} {msg : SocketMsg}
    {rest : List SocketMsg} {sent : ℕ} (h : Failed p msg rest sent)
    (hrun : run (step w) p as = some q) : q.accepted = p.accepted := by
  have hend : q.accepted = p.accepted ∧ ∃ rest', Failed q msg rest' sent :=
    invariant (I := fun r => r.accepted = p.accepted ∧ ∃ rest', Failed r msg rest' sent)
      (fun r a r' hr hstep => by
        obtain ⟨hacc, rest', hr⟩ := hr
        obtain ⟨hacc', hr'⟩ := failed_step hr hstep
        exact ⟨hacc'.trans hacc, hr'⟩)
      ⟨rfl, rest, h⟩ hrun
  exact hend.1

theorem inOrder_of_failed {w : Writer} {p : WritePump} {msg : SocketMsg}
    {rest : List SocketMsg} {sent : ℕ} (h : Failed p msg rest sent) : InOrder w p := by
  obtain ⟨done, hdelivered, -, haccepted⟩ := h.delivered
  refine ⟨by simp [h.writes], ?_, ?_, fun hw => absurd h.writes hw,
    stream_prefix hdelivered haccepted, fun _ as q => accepted_of_failed h⟩
  · intro hf
    simp [h.failed] at hf
  · intro write hw
    simp [h.writes] at hw

/-- In every state that a pump of either class can reach, the pump is in order. -/
theorem inOrder_of_run (w : Writer) {as : List Action} {p : WritePump}
    (hrun : run (step w) start as = some p) : InOrder w p := by
  rcases invariant (fun _ _ _ hp hstep => orderly_step hp hstep) orderly_start hrun with
      h | ⟨msg, rest, sent, h⟩ | ⟨msg, rest, sent, h⟩
  · exact inOrder_of_idle h
  · exact inOrder_of_writing h
  · exact inOrder_of_failed h

theorem inOrder_two_messages :
    ∃ p, run (step chatClientWriter) start
        [.deliver default, .transfer 0 3, .deliver default, .transfer 0 1, .complete 0] = some p ∧
      InOrder chatClientWriter p := by
  have hrun : ∃ p, run (step chatClientWriter) start
      [.deliver default, .transfer 0 3, .deliver default, .transfer 0 1, .complete 0] = some p :=
    ⟨_, rfl⟩
  obtain ⟨p, hp⟩ := hrun
  exact ⟨p, hp, inOrder_of_run chatClientWriter hp⟩

end WritePump

end GafqEngine
