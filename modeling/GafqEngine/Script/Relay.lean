import GafqEngine.Script.Host
import Mathlib.Data.List.Forall2

/-!
# From the queue to the wire

The `send` calls of any number of `LoopExecute` calls on messages are those of the
items whose data asks for one, in order, and the receiving side reads each back
as the data of its item. The other items make none, whatever their data decodes
to, and leave the handling of the later ones as it is.
-/

namespace GafqEngine

open CLib Gafq Transition Script

namespace Host

/-- The message is for `start_action`, with a string that fits into a frame. -/
def IsMessage (item : GafqItem) : Prop :=
  ∃ data, item.msg = some { action := ascii "start_action", data := data } ∧ NulFree data ∧
    data.length ≤ maxBodyLength

/-- The data decodes to a table whose field `oper` is `"send_data"`. -/
def asksToSend (env : Env) (item : GafqItem) : Bool :=
  match item.msg.map fun msg => env.json.decode msg.data with
  | some (.ok (.table entries)) =>
      (Value.lookup (ascii "oper") entries).isString (ascii "send_data")
  | _ => false

/-- The bytes of the call are a header and a body that any receiver reads back as
the data of the item. -/
def Carries (item : GafqItem) (call : SendCall) : Prop :=
  ∃ msg, item.msg = some msg ∧ call.bytes.length = headerLength + msg.data.length ∧
    ∀ m : SocketMsg, (m.receive call.bytes).1 = true ∧
      (m.receive call.bytes).2.body.take (m.receive call.bytes).2.bodyLength = msg.data

/-- The call that a message asks for carries its data. -/
theorem request_carries (env : Env) {item : GafqItem} {data : Bytes}
    (hmsg : item.msg = some { action := ascii "start_action", data := data })
    (hlen : data.length ≤ maxBodyLength) :
    (asksToSend env item = false ∧ request env data = none) ∨
      asksToSend env item = true ∧ ∃ call, request env data = some call ∧ Carries item call := by
  have hframe := socketCodec.length_frame (show data.length ≤ socketCodec.limit from hlen)
  have hcarries : ∀ toArg, Carries item (frameCall env.lib toArg data) := by
    intro toArg
    rw [frameCall_of_le env.lib toArg hlen]
    exact ⟨_, hmsg, hframe, fun m => m.receive_frame hlen⟩
  cases hdecode : env.json.decode data with
  | error err => exact Or.inl (by simp [asksToSend, request, hmsg, hdecode])
  | ok v =>
      cases v with
      | table entries =>
          cases hsend : (Value.lookup (ascii "oper") entries).isString (ascii "send_data") with
          | true =>
              have hask : asksToSend env item = true := by
                simp [asksToSend, hmsg, hdecode, hsend]
              have hrequest : request env data =
                  some (frameCall env.lib (Value.lookup (ascii "to") entries) data) := by
                simp only [request, hdecode, hsend, if_true]
              exact Or.inr ⟨hask, _, hrequest, hcarries _⟩
          | false => exact Or.inl (by simp [asksToSend, request, hmsg, hdecode, hsend])
      | _ => exact Or.inl (by simp [asksToSend, request, hmsg, hdecode])

theorem run_messages (env : Env) {h : Host} {items : List GafqItem} (hs : Ready h.script)
    (hitems : ∀ item ∈ items, IsMessage item) :
    ∃ h' calls, run (runItem env) h items = some h' ∧ Ready h'.script ∧
      h'.script.sends = h.script.sends ++ calls ∧
      List.Forall₂ Carries (items.filter (asksToSend env)) calls := by
  induction items generalizing h with
  | nil => exact ⟨h, [], rfl, hs, (List.append_nil _).symm, List.Forall₂.nil⟩
  | cons item items ih =>
      obtain ⟨data, hmsg, hnul, hlen⟩ := hitems item List.mem_cons_self
      obtain ⟨h₁, hrun, hready, hsends, -⟩ := runItem_message env hs hmsg
      rw [cstr_of_nulFree hnul] at hsends
      obtain ⟨h', calls, hrun', hready', hsends', hcalls⟩ :=
        ih hready fun i hi => hitems i (List.mem_cons_of_mem _ hi)
      have hstep : run (runItem env) h (item :: items) = some h' := by
        rw [run_cons, hrun, Option.bind_some, hrun']
      rcases request_carries env hmsg hlen with ⟨hask, hnone⟩ | ⟨hask, call, hcall, hcarries⟩
      · refine ⟨h', calls, hstep, hready', ?_, ?_⟩
        · rw [hsends', hsends, hnone, Option.toList_none, List.append_nil]
        · rwa [List.filter_cons_of_neg (by simp [hask])]
      · refine ⟨h', call :: calls, hstep, hready', ?_, ?_⟩
        · rw [hsends', hsends, hcall, Option.toList_some, List.append_assoc,
            List.singleton_append]
        · rw [List.filter_cons_of_pos hask]
          exact List.Forall₂.cons hcarries hcalls

/-- Every `LoopExecute` works its batch off, and the next one finds the functions
in place. -/
theorem run_loopExecute (env : Env) {h : Host} {queues : List (List GafqItem)}
    (hs : Ready h.script) (hitems : ∀ q ∈ queues, ∀ item ∈ q, IsMessage item) :
    ∃ h' calls, run (loopExecute env) h queues = some h' ∧
      h'.script.sends = h.script.sends ++ calls ∧
      List.Forall₂ Carries ((queues.flatMap copyBatch).filter (asksToSend env)) calls := by
  induction queues generalizing h with
  | nil => exact ⟨h, [], rfl, (List.append_nil _).symm, List.Forall₂.nil⟩
  | cons q queues ih =>
      obtain ⟨h₁, calls₁, hrun₁, hready₁, hsends₁, hcalls₁⟩ := run_messages env hs
        fun item hi => hitems q List.mem_cons_self item (mem_of_mem_copyBatch hi)
      obtain ⟨h', calls, hrun, hsends, hcalls⟩ :=
        ih hready₁ fun p hp => hitems p (List.mem_cons_of_mem q hp)
      refine ⟨h', calls₁ ++ calls, ?_, ?_, ?_⟩
      · rw [run_cons, loopExecute, hrun₁, Option.bind_some, hrun]
      · rw [hsends, hsends₁, List.append_assoc]
      · rw [List.flatMap_cons, List.filter_append]
        exact List.rel_append hcalls₁ hcalls

/-- Over any number of `LoopExecute` calls on messages, the `send` calls made are
one for each item that asks for it, in order, and each carries the data of its
item. -/
theorem loopExecute_relays (env : Env) (library : Bytes → Value) (stack : List Value)
    {queues : List (List GafqItem)} (hitems : ∀ q ∈ queues, ∀ item ∈ q, IsMessage item) :
    ∃ h, run (loopExecute env) (start library stack) queues = some h ∧
      List.Forall₂ Carries ((queues.flatMap copyBatch).filter (asksToSend env))
        h.script.sends := by
  obtain ⟨h, calls, hrun, hsends, hcalls⟩ :=
    run_loopExecute env (ready_start library stack) hitems
  have hstart : (start library stack).script.sends = [] := rfl
  rw [hstart, List.nil_append] at hsends
  exact ⟨h, hrun, hsends ▸ hcalls⟩

def requestText : Bytes := ascii "\x7b\"oper\":\"send_data\",\"to\":5\x7d"

def oneRequest : JsonDecoder where
  decode s :=
    if s = requestText then
      .ok (.table [(.string (ascii "oper"), .string (ascii "send_data")),
        (.string (ascii "to"), .number (.finite 5))])
    else .error (.string (ascii "unexpected character"))
  decoded s v h := by
    by_cases hs : s = requestText
    · rw [if_pos hs] at h
      obtain rfl := Except.ok.inj h
      refine .table _ ?_ ?_
      · intro e he
        simp only [List.mem_cons, List.not_mem_nil, or_false] at he
        rcases he with rfl | rfl
        · exact Or.inl ⟨_, rfl⟩
        · exact Or.inl ⟨_, rfl⟩
      · intro e he
        simp only [List.mem_cons, List.not_mem_nil, or_false] at he
        rcases he with rfl | rfl
        · exact .string _
        · exact .number _
    · rw [if_neg hs] at h
      cases h

def messageItem (fd : ℤ) (data : Bytes) : GafqItem :=
  { gafqContent := [], fd := fd
    msg := some { action := ascii "start_action", data := data }, errinfo := [] }

/-- Two calls of `LoopExecute`, with a text that is no request and two requests. -/
def twoBatches : List (List GafqItem) :=
  [[messageItem 5 (ascii "[1, 2"), messageItem 6 requestText], [messageItem 6 requestText]]

theorem isMessage_twoBatches : ∀ q ∈ twoBatches, ∀ item ∈ q, IsMessage item := by
  intro q hq item hitem
  simp only [twoBatches, List.mem_cons, List.not_mem_nil, or_false] at hq
  rcases hq with rfl | rfl
  · simp only [List.mem_cons, List.not_mem_nil, or_false] at hitem
    rcases hitem with rfl | rfl
    · exact ⟨_, rfl, by decide, by decide⟩
    · exact ⟨_, rfl, by decide, by decide⟩
  · rw [List.mem_singleton.mp hitem]
    exact ⟨_, rfl, by decide, by decide⟩

theorem loopExecute_relays_two_batches :
    ∃ h, run (loopExecute { lib := default, json := oneRequest, fresh := fun _ => default })
        (start (fun _ => .nil) []) twoBatches = some h ∧
      h.script.sends.length = 2 ∧
      List.Forall₂ Carries
        ((twoBatches.flatMap copyBatch).filter
          (asksToSend { lib := default, json := oneRequest, fresh := fun _ => default }))
        h.script.sends := by
  obtain ⟨h, hrun, hcarries⟩ :=
    loopExecute_relays { lib := default, json := oneRequest, fresh := fun _ => default }
      (fun _ => .nil) [] isMessage_twoBatches
  have hasked : ((twoBatches.flatMap copyBatch).filter
      (asksToSend { lib := default, json := oneRequest, fresh := fun _ => default })).length =
        2 := by decide +kernel
  exact ⟨h, hrun, hcarries.length_eq.symm.trans hasked, hcarries⟩

end Host

end GafqEngine
