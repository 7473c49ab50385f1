import GafqEngine.Kernel.Socket
import GafqEngine.SendData.Basic
import GafqEngine.SocketMsg.ReadLoop
import GafqEngine.Transition.Run

/-!
# Outbound streams

Scripts call `send_data` on any descriptors while the other thread opens and
closes connections, so the table that says which connection a descriptor names
changes between the calls. The kernel takes the whole frame, a part of it, or
fails; on a descriptor that names no client connection it fails.

`Framed` says that every client receives whole frames, those of the calls to it
that returned `1`, and that a call whose frame was not taken whole did not. Since
`send_data` returns `1` whatever `send` did, a run ends in a framed state exactly
when the kernel took every frame whole.
-/

namespace GafqEngine

open CLib Gafq Transition

/-- A finished `send_data` call: the connection its descriptor named, the
payload, the bytes taken (`none` for a failed `send`), and what it returned. -/
structure SendRecord where
  conn : Option ConnId
  payload : Bytes
  taken : Option ℕ
  returned : ℤ

def SendRecord.Whole (r : SendRecord) : Prop :=
  r.taken = some (socketCodec.frame r.payload).length

instance (r : SendRecord) : Decidable r.Whole := inferInstanceAs (Decidable (_ = _))

/-- The descriptor table, the bytes taken on each connection, and the calls. -/
structure Outbound where
  names : ℤ → Option ConnId
  accepted : ConnId → Bytes
  calls : List SendRecord

namespace Outbound

def start (names : ℤ → Option ConnId) : Outbound where
  names := names
  accepted _ := []
  calls := []

/-- The other thread changes the table, or a script calls `send_data`. -/
inductive Action where
  | rename (names : ℤ → Option ConnId)
  | sendData (msg : SocketMsg) (toArg : Value) (payload : Bytes) (outcome : SendOutcome)

def taken (conn : Option ConnId) (bytes : Bytes) : SendOutcome → Option ℕ
  | .takes n => conn.map fun _ => min n bytes.length
  | .fails => none

def send (s : Outbound) (call : SendCall) (payload : Bytes) (returned : ℤ)
    (outcome : SendOutcome) : Outbound :=
  let n := taken (s.names call.toFd) call.bytes outcome
  { s with
    accepted := fun c =>
      if s.names call.toFd = some c then s.accepted c ++ call.bytes.take (n.getD 0)
      else s.accepted c
    calls := s.calls ++
      [{ conn := s.names call.toFd, payload := payload, taken := n, returned := returned }] }

/-- One step: a change of the table, or a call of `send_data` with a string. -/
def step (lib : Lib) (s : Outbound) : Action → Option Outbound
  | .rename names => some { s with names := names }
  | .sendData msg toArg payload outcome =>
      (sendData lib msg toArg (.string payload)).map fun r =>
        s.send r.1 payload r.2 outcome

/-- The payloads of the calls to a connection that returned `1`. -/
def reported (s : Outbound) (c : ConnId) : List Bytes :=
  (s.calls.filter fun r => r.conn = some c ∧ r.returned = 1).map SendRecord.payload

/-- The streams carry the frames that were reported as sent, and no others. -/
structure Framed (s : Outbound) : Prop where
  streams : ∀ c, s.accepted c = socketCodec.frames (s.reported c)
  honest : ∀ r ∈ s.calls, ¬ r.Whole → r.returned ≠ 1
  decoded : ∀ c m, ((ReadLoop.start m).readStream chatClient (s.accepted c)).1.accepted =
    s.reported c
  aligned : ∀ c m,
    ((ReadLoop.start m).readStream chatClient (s.accepted c)).1.pending = some .handleReadHeader ∧
      ((ReadLoop.start m).readStream chatClient (s.accepted c)).2 = []

def Fits : Action → Prop
  | .rename _ => True
  | .sendData _ _ payload _ => NulFree payload ∧ payload.length ≤ maxBodyLength

/-- The descriptor names a connection, and the kernel takes the whole frame. -/
def TakesWhole (lib : Lib) (s : Outbound) : Action → Prop
  | .rename _ => True
  | .sendData _ toArg payload outcome =>
      (s.names (sendTarget lib toArg)).isSome ∧
        ∃ n, outcome = .takes n ∧ (socketCodec.frame payload).length ≤ n

theorem step_cases {lib : Lib} {s s' : Outbound} {a : Action} (ha : Fits a)
    (h : step lib s a = some s') :
    (∃ names, a = .rename names ∧ s' = { s with names := names }) ∨
      ∃ msg toArg payload outcome, a = .sendData msg toArg payload outcome ∧
        s' = s.send { toFd := sendTarget lib toArg, bytes := socketCodec.frame payload } payload
          1 outcome := by
  cases a with
  | rename names => exact Or.inl ⟨names, rfl, (Option.some.inj h).symm⟩
  | sendData msg toArg payload outcome =>
      simp only [step, sendData_string lib msg toArg ha.1 ha.2, Option.map_some,
        Option.some.injEq] at h
      exact Or.inr ⟨msg, toArg, payload, outcome, rfl, h.symm⟩

def PayloadsFit (s : Outbound) : Prop := ∀ r ∈ s.calls, r.payload.length ≤ maxBodyLength

def AllReturned (s : Outbound) : Prop := ∀ r ∈ s.calls, r.returned = 1

def torn (s : Outbound) : ℕ := s.calls.countP fun r => ¬ r.Whole

/-- What holds of the recorded calls holds after a step, if it holds of those that
return `1` and have a payload that fits. -/
theorem calls_step {P : SendRecord → Prop} {lib : Lib} {s s' : Outbound} {a : Action}
    (hold : ∀ r ∈ s.calls, P r)
    (hnew : ∀ r : SendRecord, r.returned = 1 → r.payload.length ≤ maxBodyLength → P r)
    (ha : Fits a) (h : step lib s a = some s') : ∀ r ∈ s'.calls, P r := by
  rcases step_cases ha h with ⟨names, -, rfl⟩ | ⟨msg, toArg, payload, outcome, rfl, rfl⟩
  · exact hold
  · intro r hmem
    rcases List.mem_append.mp hmem with hmem | hmem
    · exact hold r hmem
    · rw [List.mem_singleton.mp hmem]
      exact hnew _ rfl ha.2

theorem allReturned_step {lib : Lib} {s s' : Outbound} {a : Action} (hr : AllReturned s)
    (ha : Fits a) (h : step lib s a = some s') : AllReturned s' :=
  calls_step hr (fun _ hone _ => hone) ha h

theorem payloadsFit_step {lib : Lib} {s s' : Outbound} {a : Action} (hp : PayloadsFit s)
    (ha : Fits a) (h : step lib s a = some s') : PayloadsFit s' :=
  calls_step hp (fun _ _ hfit => hfit) ha h

theorem taken_eq_some_length_iff (conn : Option ConnId) (bytes : Bytes) (outcome : SendOutcome) :
    taken conn bytes outcome = some bytes.length ↔
      conn.isSome ∧ ∃ n, outcome = .takes n ∧ bytes.length ≤ n := by
  cases outcome with
  | fails => simp [taken]
  | takes n =>
      cases conn with
      | none => simp [taken]
      | some c => simp [taken]

theorem torn_step {lib : Lib} {s s' : Outbound} {a : Action} (ha : Fits a)
    (h : step lib s a = some s') :
    s.torn ≤ s'.torn ∧ (s'.torn = s.torn ↔ TakesWhole lib s a) := by
  rcases step_cases ha h with ⟨names, rfl, rfl⟩ | ⟨msg, toArg, payload, outcome, rfl, rfl⟩
  · simp [torn, TakesWhole]
  · have hwhole := taken_eq_some_length_iff (s.names (sendTarget lib toArg))
      (socketCodec.frame payload) outcome
    simp only [torn, send, List.countP_append, List.countP_singleton, TakesWhole, ← hwhole,
      SendRecord.Whole]
    by_cases htaken : taken (s.names (sendTarget lib toArg)) (socketCodec.frame payload) outcome =
        some (socketCodec.frame payload).length
    · simp [htaken]
    · simp [htaken]

/-- A call that the kernel takes whole adds its frame to the one stream. -/
theorem streams_step {lib : Lib} {s s' : Outbound} {a : Action} (ha : Fits a)
    (hw : TakesWhole lib s a) (hs : ∀ c, s.accepted c = socketCodec.frames (s.reported c))
    (h : step lib s a = some s') : ∀ c, s'.accepted c = socketCodec.frames (s'.reported c) := by
  rcases step_cases ha h with ⟨names, rfl, rfl⟩ | ⟨msg, toArg, payload, outcome, rfl, rfl⟩
  · exact hs
  · have hlen := (taken_eq_some_length_iff (s.names (sendTarget lib toArg))
      (socketCodec.frame payload) outcome).mpr hw
    intro c
    simp only [send, reported, hlen, Option.getD_some, List.take_length, List.filter_append,
      List.map_append, Framing.Codec.frames_append]
    by_cases hc : s.names (sendTarget lib toArg) = some c
    · simp [hc, hs c, reported]
    · simp [hc, hs c, reported]

theorem framed_of_streams {s : Outbound} (hp : PayloadsFit s) (htorn : s.torn = 0)
    (hs : ∀ c, s.accepted c = socketCodec.frames (s.reported c)) : Framed s := by
  have hfit : ∀ c, ∀ b ∈ s.reported c, b.length ≤ maxBodyLength := by
    intro c b hb
    obtain ⟨r, hr, rfl⟩ := List.mem_map.mp hb
    exact hp r (List.mem_of_mem_filter hr)
  refine ⟨hs, ?_, ?_, ?_⟩
  · intro r hr hnot
    have hzero := List.countP_eq_zero.mp htorn r hr
    simp only [decide_eq_true_eq] at hzero
    exact absurd hnot hzero
  · intro c m
    rw [hs c, ReadLoop.readStream_accepted chatClient rfl, socketCodec.decode_frames _ (hfit c)]
    rfl
  · intro c m
    rw [hs c]
    have haligned := ReadLoop.readStream_frames chatClient (s := ReadLoop.start m) rfl _ (hfit c)
    exact ⟨haligned.1, haligned.2.2⟩

/-- After a run whose payloads fit, the streams are framed and the results are
honest exactly when the kernel took every frame of the run whole. -/
theorem framed_iff_meets_takesWhole (lib : Lib) (names : ℤ → Option ConnId) {as : List Action}
    {s : Outbound} (hfits : ∀ a ∈ as, Fits a) (hrun : run (step lib) (start names) as = some s) :
    Framed s ↔ Meets (step lib) (TakesWhole lib) (start names) as := by
  have hdom : Meets (step lib) (fun _ a => Fits a) (start names) as := meets_of_forall_mem hfits
  have htorn : s.torn = 0 ↔ Meets (step lib) (TakesWhole lib) (start names) as :=
    eq_iff_meets (I := fun _ => True) torn (fun _ _ _ _ _ _ => trivial)
      (fun _ _ _ _ ha hs => (torn_step ha hs).1) (fun _ _ _ _ ha hs => (torn_step ha hs).2)
      trivial hdom hrun
  obtain ⟨hreturned, hpayloads⟩ : AllReturned s ∧ PayloadsFit s :=
    invariant_of_meets (I := fun s => AllReturned s ∧ PayloadsFit s)
      (fun _ _ _ hi ha hs => ⟨allReturned_step hi.1 ha hs, payloadsFit_step hi.2 ha hs⟩)
      ⟨by simp [AllReturned, start], by simp [PayloadsFit, start]⟩ hdom hrun
  constructor
  · intro h
    rw [← htorn, torn, List.countP_eq_zero]
    intro r hr hnot
    simp only [decide_eq_true_eq] at hnot
    exact h.honest r hr hnot (hreturned r hr)
  · intro h
    have hok : Meets (step lib) (fun s a => Fits a ∧ TakesWhole lib s a) (start names) as :=
      meets_and.mpr ⟨hdom, h⟩
    have hstreams : ∀ c, s.accepted c = socketCodec.frames (s.reported c) :=
      invariant_of_meets (I := fun s => ∀ c, s.accepted c = socketCodec.frames (s.reported c))
        (fun _ _ _ hi ha hs => streams_step ha.1 ha.2 hi hs)
        (by simp [start, reported]) hok hrun
    exact framed_of_streams hpayloads (htorn.mpr h) hstreams

/-- Calls to two clients, whose numbers change hands before the last one. -/
def threeSends : List Action :=
  [.sendData default (.number (.finite 5)) (ascii "a") (.takes 5),
    .sendData default (.number (.finite 6)) (ascii "bb") (.takes 6),
    .rename fun fd => if fd = 5 then some 1 else none,
    .sendData default (.number (.finite 5)) (ascii "c") (.takes 1028)]

theorem framed_iff_three_sends :
    ∃ s, run (step default) (start fun fd => if fd = 5 then some 0 else some 1) threeSends =
        some s ∧
      (Framed s ↔ Meets (step default) (TakesWhole default)
        (start fun fd => if fd = 5 then some 0 else some 1) threeSends) := by
  refine ⟨_, rfl, framed_iff_meets_takesWhole default _ ?_ rfl⟩
  intro a ha
  simp only [threeSends, List.mem_cons, List.not_mem_nil, or_false] at ha
  rcases ha with rfl | rfl | rfl | rfl
  · exact ⟨by decide, by decide⟩
  · exact ⟨by decide, by decide⟩
  · trivial
  · exact ⟨by decide, by decide⟩

/-- A `send` that takes two bytes of a frame is reported as a success. -/
theorem framed_fails_on_short_send :
    ¬ ∀ (lib : Lib) (names : ℤ → Option ConnId) (as : List Action) (s : Outbound),
      (∀ a ∈ as, Fits a) → run (step lib) (start names) as = some s → Framed s := by
  intro h
  have hframed := h default (fun _ => some 0)
    [.sendData default (.number (.finite 5)) (ascii "a") (.takes 2)] _ ?_ rfl
  · refine hframed.honest _ (List.mem_singleton.mpr rfl) ?_ rfl
    intro hwhole
    have hfit : (ascii "a").length ≤ socketCodec.limit := by decide
    have hlen := socketCodec.length_frame hfit
    have htaken : min 2 _ = (socketCodec.frame (ascii "a")).length := Option.some.inj hwhole
    rw [hlen] at htaken
    exact absurd (htaken ▸ Nat.min_le_left 2 _) (by decide)
  · intro a ha
    rw [List.mem_singleton.mp ha]
    exact ⟨by decide, by decide⟩

end Outbound

end GafqEngine
