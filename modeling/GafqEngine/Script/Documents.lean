import GafqEngine.Json.Errors
import GafqEngine.Json.Fields
import GafqEngine.Json.Writing
import GafqEngine.Script.Relay

/-!
# The script on documents

The script with the decoder of `json.gafq`. Which messages make it call `send_data` is a
matter of their texts: those that spell an object whose last member `oper` is the string
`send_data`. What goes out is the text itself, to the descriptor that the last member
`to` stands for.
-/

namespace GafqEngine

open CLib Gafq Transition Json

/-- The value or the error of the decoder; the bound on its steps is never met. -/
def outcome : Except Stop Value → Except Value Value
  | .ok v => .ok v
  | .error (.error err) => .error err
  | .error .outOfFuel => .error .nil

theorem outcome_eq_ok {r : Except Stop Value} {v : Value} : outcome r = .ok v ↔ r = .ok v := by
  cases r with
  | ok v' => simp [outcome]
  | error e =>
      cases e with
      | error err => simp [outcome]
      | outOfFuel => simp [outcome]

def jsonDecoder (lib : Lib) : JsonDecoder where
  decode str := outcome (Json.decode lib str)
  decoded str v h := by
    obtain ⟨x, -, rfl⟩ := decode_sound (outcome_eq_ok.mp h)
    exact decoded_value x

def scriptEnv (lib : Lib) (fresh : ℕ → SocketMsg) : Env where
  lib := lib
  json := jsonDecoder lib
  fresh := fresh

/-- The text asks for the call: it goes out to the descriptor that it names. -/
def Asks (lib : Lib) (data : Bytes) (call : SendCall) : Prop :=
  ∃ members, Spells lib data (.object members) ∧
    fieldValue (ascii "oper") members = .string (ascii "send_data") ∧
    call = { toFd := sendTarget lib (fieldValue (ascii "to") members)
             bytes := socketCodec.frame data }

/-- An array has no fields. -/
theorem lookup_elementEntries (key : Bytes) (xs : List Tree) (n : ℕ)
    (res : List (Value × Value)) :
    Value.lookup key (elementEntries xs n res) = Value.lookup key res := by
  rw [← Value.rawget_string, ← Value.rawget_string]
  induction xs generalizing n res with
  | nil => rfl
  | cons x xs ih =>
      have hne : Value.string key ≠ .number (.finite n) := by simp
      rw [elementEntries, ih, Value.rawget_rawset_of_ne (.string key) (.number n) hne]

/-- The call that the script makes for a text is the one that the text asks for. -/
theorem request_eq_some_iff (lib : Lib) (fresh : ℕ → SocketMsg) {data : Bytes}
    (hlen : data.length ≤ maxBodyLength) (call : SendCall) :
    Script.request (scriptEnv lib fresh) data = some call ↔ Asks lib data call := by
  have hdecode : ∀ v, (scriptEnv lib fresh).json.decode data = .ok v ↔
      ∃ x, Spells lib data x ∧ x.value = v := by
    intro v
    constructor
    · exact fun h => decode_sound (outcome_eq_ok.mp h)
    · rintro ⟨x, hx, rfl⟩
      exact outcome_eq_ok.mpr (decode_complete hx)
  constructor
  · intro h
    rw [Script.request] at h
    split at h
    · next entries hentries =>
        obtain ⟨x, hx, hvalue⟩ := (hdecode _).mp hentries
        rw [Option.ite_none_right_eq_some, Value.isString_iff, frameCall_of_le _ _ hlen,
          Option.some.injEq] at h
        obtain ⟨hoper, rfl⟩ := h
        cases x with
        | array xs =>
            obtain rfl := Value.table.inj hvalue
            rw [lookup_elementEntries] at hoper
            cases hoper
        | object members =>
            obtain rfl := Value.table.inj hvalue
            rw [lookup_memberEntries] at hoper
            refine ⟨members, hx, hoper, ?_⟩
            rw [lookup_memberEntries]
            rfl
        | _ => cases hvalue
    · cases h
  · rintro ⟨members, hx, hoper, rfl⟩
    have hentries := (hdecode _).mpr ⟨_, hx, rfl⟩
    have hsend := (Value.isString_iff (ascii "send_data") _).mpr hoper
    rw [Script.request, hentries]
    simp only [Tree.value, lookup_memberEntries, hsend, if_true, frameCall_of_le _ _ hlen]
    rfl

/-- The calls that are made for messages: for each text the one that it asks for. -/
inductive Relays (lib : Lib) : List Bytes → List SendCall → Prop
  | nil : Relays lib [] []
  | sent {data : Bytes} {texts : List Bytes} {call : SendCall} {calls : List SendCall}
      (h : Asks lib data call) (hrest : Relays lib texts calls) :
      Relays lib (data :: texts) (call :: calls)
  | passed {data : Bytes} {texts : List Bytes} {calls : List SendCall}
      (h : ∀ call, ¬ Asks lib data call) (hrest : Relays lib texts calls) :
      Relays lib (data :: texts) calls

theorem Relays.append {lib : Lib} {texts texts' : List Bytes} {calls calls' : List SendCall}
    (h : Relays lib texts calls) (h' : Relays lib texts' calls') :
    Relays lib (texts ++ texts') (calls ++ calls') := by
  induction h with
  | nil => exact h'
  | sent h _ ih => exact .sent h ih
  | passed h _ ih => exact .passed h ih

theorem relays_request (lib : Lib) (fresh : ℕ → SocketMsg) {data : Bytes}
    (hlen : data.length ≤ maxBodyLength) :
    Relays lib [data] (Script.request (scriptEnv lib fresh) data).toList := by
  cases hrequest : Script.request (scriptEnv lib fresh) data with
  | some call => exact .sent ((request_eq_some_iff lib fresh hlen call).mp hrequest) .nil
  | none =>
      refine .passed (fun call hcall => ?_) .nil
      rw [(request_eq_some_iff lib fresh hlen call).mpr hcall] at hrequest
      cases hrequest

namespace Host

def texts (items : List GafqItem) : List Bytes :=
  items.filterMap fun item => item.msg.map ScriptEngineMsgBase.data

theorem run_documents (lib : Lib) (fresh : ℕ → SocketMsg) {h : Host} {items : List GafqItem}
    (hs : Script.Ready h.script) (hitems : ∀ item ∈ items, IsMessage item) :
    ∃ h' calls, run (runItem (scriptEnv lib fresh)) h items = some h' ∧ Script.Ready h'.script ∧
      h'.script.sends = h.script.sends ++ calls ∧ Relays lib (texts items) calls := by
  induction items generalizing h with
  | nil => exact ⟨h, [], rfl, hs, (List.append_nil _).symm, .nil⟩
  | cons item items ih =>
      obtain ⟨data, hmsg, hnul, hlen⟩ := hitems item List.mem_cons_self
      obtain ⟨h₁, hrun, hready, hsends, -⟩ := runItem_message (scriptEnv lib fresh) hs hmsg
      rw [cstr_of_nulFree hnul] at hsends
      obtain ⟨h', calls, hrun', hready', hsends', hcalls⟩ :=
        ih hready fun i hi => hitems i (List.mem_cons_of_mem _ hi)
      refine ⟨h', (Script.request (scriptEnv lib fresh) data).toList ++ calls, ?_, hready', ?_, ?_⟩
      · rw [run_cons, hrun, Option.bind_some, hrun']
      · rw [hsends', hsends, List.append_assoc]
      · have htexts : texts (item :: items) = [data] ++ texts items := by
          rw [texts, List.filterMap_cons, hmsg]
          rfl
        rw [htexts]
        exact (relays_request lib fresh hlen).append hcalls

theorem run_loopExecute_documents (lib : Lib) (fresh : ℕ → SocketMsg) {h : Host}
    {queues : List (List GafqItem)} (hs : Script.Ready h.script)
    (hitems : ∀ q ∈ queues, ∀ item ∈ q, IsMessage item) :
    ∃ h' calls, run (loopExecute (scriptEnv lib fresh)) h queues = some h' ∧
      h'.script.sends = h.script.sends ++ calls ∧
      Relays lib (texts (queues.flatMap copyBatch)) calls := by
  induction queues generalizing h with
  | nil => exact ⟨h, [], rfl, (List.append_nil _).symm, .nil⟩
  | cons q queues ih =>
      obtain ⟨h₁, calls₁, hrun₁, hready₁, hsends₁, hcalls₁⟩ := run_documents lib fresh hs
        fun item hi => hitems q List.mem_cons_self item (mem_of_mem_copyBatch hi)
      obtain ⟨h', calls, hrun, hsends, hcalls⟩ :=
        ih hready₁ fun p hp => hitems p (List.mem_cons_of_mem q hp)
      refine ⟨h', calls₁ ++ calls, ?_, ?_, ?_⟩
      · rw [run_cons, loopExecute, hrun₁, Option.bind_some, hrun]
      · rw [hsends, hsends₁, List.append_assoc]
      · rw [List.flatMap_cons, texts, List.filterMap_append]
        exact hcalls₁.append hcalls

/-- Over any number of `LoopExecute` calls the script makes the calls that the texts of
the messages ask for, in their order, and no others. -/
theorem sends_of_documents (lib : Lib) (fresh : ℕ → SocketMsg) (library : Bytes → Value)
    (stack : List Value) {queues : List (List GafqItem)}
    (hitems : ∀ q ∈ queues, ∀ item ∈ q, IsMessage item) :
    ∃ h, run (loopExecute (scriptEnv lib fresh)) (start library stack) queues = some h ∧
      Relays lib (texts (queues.flatMap copyBatch)) h.script.sends := by
  obtain ⟨h, calls, hrun, hsends, hcalls⟩ :=
    run_loopExecute_documents lib fresh (ready_start library stack) hitems
  have hstart : (start library stack).script.sends = [] := rfl
  rw [hstart, List.nil_append] at hsends
  exact ⟨h, hrun, hsends ▸ hcalls⟩

theorem sends_of_documents_two_batches :
    ∃ h, run (loopExecute (scriptEnv integerLib fun _ => default)) (start (fun _ => .nil) [])
        twoBatches = some h ∧
      h.script.sends.length = 2 ∧
      Relays integerLib (texts (twoBatches.flatMap copyBatch)) h.script.sends := by
  obtain ⟨h, hrun, hsent⟩ : ∃ h, run (loopExecute (scriptEnv integerLib fun _ => default))
      (start (fun _ => .nil) []) twoBatches = some h ∧ h.script.sends.length = 2 :=
    exists_of_any_run (by decide +kernel)
  obtain ⟨h', hrun', hrelays⟩ := sends_of_documents integerLib (fun _ => default)
    (fun _ => .nil) [] isMessage_twoBatches
  obtain rfl := Option.some.inj (hrun.symm.trans hrun')
  exact ⟨h, hrun, hsent, hrelays⟩

end Host

end GafqEngine
