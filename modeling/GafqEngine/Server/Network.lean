import GafqEngine.EpollLoop.Arrival
import GafqEngine.Script.Documents
import GafqEngine.Server.Accounting
import GafqEngine.SocketMsg.ReadLoop

/-!
# From client to client

The server with the bytes on its connections: what each client wrote so far, and what
the kernel took for it, with the `send` calls that were made. Where the clients write
frames, each read returns what the frame has for it, no frame is taken in part and no lock
section finds `2 ^ 31` items, the texts of each client reach the script in their order, the
script makes the calls that these texts ask for, and a client prints the texts whose calls
its connection took.
-/

namespace GafqEngine

open CLib Gafq Script Transition

def ClientAction.bytes : ClientAction → Bytes
  | .sends bytes => bytes
  | _ => []

theorem Peer.unread_of_act {p p' : Peer} {b : ClientAction} (h : p.act b = some p') :
    p'.unread = p.unread ++ b.bytes := by
  cases b with
  | sends bytes =>
      simp only [act, Option.ite_none_left_eq_some, Option.some.injEq] at h
      rw [← h.2]
      rfl
  | _ =>
      obtain rfl := Option.some.inj h
      exact (List.append_nil _).symm

def SendOutcome.part (bytes : Bytes) : SendOutcome → Bytes
  | .takes n => bytes.take n
  | .fails => []

/-- A `send` that was made, and the connection that took bytes of it. -/
structure Made where
  call : SendCall
  takenBy : Option ConnId

/-- The server, what each client wrote, what the kernel took for each, and the calls. -/
structure Network where
  server : Server
  written : ConnId → Bytes
  accepted : ConnId → Bytes
  made : List Made

namespace Network

def start (serverSocket : ℤ) (readMsg : SocketMsg) (library : Bytes → Value)
    (stack : List Value) : Network where
  server := Server.start serverSocket readMsg library stack
  written _ := []
  accepted _ := []
  made := []

def afterSend (s : Network) (server : Server) (call : SendCall) (outcome : SendOutcome) :
    Network :=
  let conn := s.server.epoll.kernel.takenBy call.toFd outcome
  { s with
    server := server
    accepted := fun c =>
      if conn = some c then s.accepted c ++ outcome.part call.bytes else s.accepted c
    made := s.made ++ [{ call := call, takenBy := conn }] }

def after (s : Network) (server : Server) : Server.Action → Network
  | .client c b =>
      { s with
        server := server
        written := Function.update s.written c (s.written c ++ b.bytes) }
  | .send outcome =>
      match s.server.sending with
      | [] => { s with server := server }
      | (_, call) :: _ => s.afterSend server call outcome
  | _ => { s with server := server }

def step (env : Env) (s : Network) (a : Server.Action) : Option Network :=
  (Server.step env s.server a).map fun server => s.after server a

/-- The client writes the next bytes of its frames, the reads return what the frames have
for them, a lock section finds no more items than `int` can count, and a `send` takes the
whole frame, if it takes any of it. -/
def Orderly (bodies : ConnId → List Bytes) (s : Network) : Server.Action → Prop
  | .client c b => s.written c ++ b.bytes <+: socketCodec.frames (bodies c)
  | .epoll b => s.server.epoll.Aligned b
  | .takeLock => s.server.waitExecuteList.length < 2 ^ 31
  | .runItem => True
  | .send outcome => ∀ q call rest n, s.server.sending = (q, call) :: rest →
      outcome = .takes n → call.bytes.length ≤ n

instance (bodies : ConnId → List Bytes) (s : Network) : ∀ a, Decidable (Orderly bodies s a)
  | .client c b =>
      inferInstanceAs (Decidable (s.written c ++ b.bytes <+: socketCodec.frames (bodies c)))
  | .epoll b => inferInstanceAs (Decidable (s.server.epoll.Aligned b))
  | .takeLock => inferInstanceAs (Decidable (_ < _))
  | .runItem => isTrue trivial
  | .send .fails => isTrue fun _ _ _ _ _ hfails => (by cases hfails)
  | .send (.takes n) =>
      decidable_of_iff (∀ p ∈ s.server.sending.head?, p.2.bytes.length ≤ n)
        ⟨fun h q call rest m hsending hm => SendOutcome.takes.inj hm ▸
            h (q, call) (by rw [hsending]; rfl),
          fun h p hp => h p.1 p.2 s.server.sending.tail n (List.eq_cons_of_mem_head? hp) rfl⟩

theorem takesAll_of_orderly {bodies : ConnId → List Bytes} {s : Network} {a : Server.Action}
    (ha : Orderly bodies s a) : s.server.TakesAll a := by
  cases a with
  | takeLock => exact ha
  | _ => trivial

def bytesTo (c : ConnId) (made : List Made) : List Bytes :=
  (made.filter fun m => m.takenBy = some c).map fun m => m.call.bytes

structure Framed (s : Network) (c : ConnId) (texts : List Bytes) : Prop where
  fit : ∀ b ∈ texts, b.length ≤ maxBodyLength
  calls : bytesTo c s.made = texts.map socketCodec.frame
  stream : s.accepted c = socketCodec.frames texts

def CarriesText (call : SendCall) : Prop :=
  ∃ data : Bytes, data.length ≤ maxBodyLength ∧ call.bytes = socketCodec.frame data

structure Flowing (lib : Lib) (fresh : ℕ → SocketMsg) (bodies : ConnId → List Bytes)
    (s : Network) : Prop where
  working : Server.Working (scriptEnv lib fresh) s.server
  part : ∀ c, s.written c <+: socketCodec.frames (bodies c)
  inbound : s.server.epoll.Inbound bodies s.written
  messages : ∀ q ∈ s.server.items, Host.IsMessage q.item
  relayed : Relays lib (Host.texts (s.server.dispatched.map fun d => d.queued.item))
    (s.made.map Made.call ++ s.server.sending.map Prod.snd)
  calls : ∀ p ∈ s.server.sending, CarriesText p.2
  framed : ∀ c, ∃ texts, Framed s c texts

section Steps

variable {lib : Lib} {fresh : ℕ → SocketMsg} {bodies : ConnId → List Bytes}

theorem isMessage_of_named {bodies : ConnId → List Bytes} (hbodies : Epoll.BodiesFit bodies)
    {k : Kernel} {d : Delivery} {c : ConnId} {data : Bytes}
    (hd : d = { conn := some c, args := startActionArgs d.args.fd data })
    (hdata : data ∈ bodies c) :
    Host.IsMessage (Queued.ofDelivery k d).item := by
  rw [hd]
  exact ⟨data, rfl, hbodies c data hdata⟩

theorem texts_concat {items : List GafqItem} {item : GafqItem} {data : Bytes}
    (hmsg : item.msg = some { action := ascii "start_action", data := data }) :
    Host.texts (items ++ [item]) = Host.texts items ++ [data] := by
  rw [Host.texts, List.filterMap_append, List.filterMap_cons, hmsg]
  rfl

theorem requests_eq {q : Queued} {data : Bytes} (env : Env)
    (hmsg : q.item.msg = some { action := ascii "start_action", data := data }) :
    Server.requests env q = (request env data).toList := by
  rw [Server.requests, hmsg, Option.bind_some]

theorem carriesText_of_mem_requests {q : Queued} {call : SendCall}
    (hq : Host.IsMessage q.item) (hcall : call ∈ Server.requests (scriptEnv lib fresh) q) :
    CarriesText call := by
  obtain ⟨data, hmsg, -, hlen⟩ := hq
  rw [requests_eq _ hmsg, Option.mem_toList] at hcall
  obtain ⟨_, -, -, rfl⟩ := (request_eq_some_iff lib fresh hlen call).mp hcall
  exact ⟨data, hlen, rfl⟩

/-- What was taken of an orderly `send` is the whole frame. -/
theorem part_eq_of_takenBy {k : Kernel} {fd : ℤ} {outcome : SendOutcome} {bytes : Bytes}
    {c : ConnId} (htaken : k.takenBy fd outcome = some c)
    (hwhole : ∀ n, outcome = .takes n → bytes.length ≤ n) : outcome.part bytes = bytes := by
  cases outcome with
  | fails => cases htaken
  | takes n => exact List.take_of_length_le (hwhole n rfl)

theorem framed_afterSend {s : Network} {server : Server} {call : SendCall}
    {outcome : SendOutcome} {c : ConnId} {texts : List Bytes} (hf : Framed s c texts)
    (hcall : CarriesText call) (hwhole : ∀ n, outcome = .takes n → call.bytes.length ≤ n) :
    ∃ texts', Framed (s.afterSend server call outcome) c texts' := by
  obtain ⟨data, hlen, hbytes⟩ := hcall
  by_cases htaken : s.server.epoll.kernel.takenBy call.toFd outcome = some c
  · have hpart := part_eq_of_takenBy htaken hwhole
    refine ⟨texts ++ [data], ?_, ?_, ?_⟩
    · intro b hb
      rcases List.mem_append.mp hb with hb | hb
      · exact hf.fit b hb
      · rw [List.mem_singleton.mp hb]
        exact hlen
    · have hcalls := hf.calls
      rw [bytesTo] at hcalls
      simp [bytesTo, afterSend, hcalls, htaken, hbytes]
    · have hstream : (s.afterSend server call outcome).accepted c =
          s.accepted c ++ outcome.part call.bytes := if_pos htaken
      rw [hstream, hpart, hbytes, hf.stream, Framing.Codec.frames_append,
        socketCodec.frames_cons, socketCodec.frames_nil, List.append_nil]
  · refine ⟨texts, hf.fit, ?_, ?_⟩
    · have hcalls := hf.calls
      rw [bytesTo] at hcalls
      simp [bytesTo, afterSend, hcalls, htaken]
    · simp [afterSend, htaken, hf.stream]

theorem flowing_client {s : Network} {server : Server} {c : ConnId} {b : ClientAction} {p : Peer}
    (hf : Flowing lib fresh bodies s) (ha : Orderly bodies s (.client c b))
    (hw : Server.Working (scriptEnv lib fresh) server)
    (hp : (s.server.epoll.kernel.peers c).act b = some p)
    (hserver : server = { s.server with epoll := { s.server.epoll with kernel := {
      s.server.epoll.kernel with peers := Function.update s.server.epoll.kernel.peers c p } } }) :
    Flowing lib fresh bodies (s.after server (.client c b)) := by
  subst hserver
  have hinbound := Epoll.inbound_writes hf.inbound (Peer.unread_of_act hp)
  refine ⟨hw, fun d => ?_, hinbound, hf.messages, hf.relayed, hf.calls, fun d => ?_⟩
  · by_cases hd : d = c
    · simp only [after, hd, Function.update_self]
      exact ha
    · simp only [after, Function.update_of_ne hd]
      exact hf.part d
  · obtain ⟨texts, hfit, hcalls, hstream⟩ := hf.framed d
    exact ⟨texts, hfit, hcalls, hstream⟩

theorem flowing_epoll {s : Network} {b : Epoll.Action} {epoll : Epoll} {out : Option Delivery}
    (hbodies : Epoll.BodiesFit bodies) (hf : Flowing lib fresh bodies s)
    (ha : Orderly bodies s (.epoll b))
    (hw : Server.Working (scriptEnv lib fresh) (s.server.afterEpoll epoll out))
    (hadv : s.server.epoll.advance b = some (epoll, out)) :
    Flowing lib fresh bodies (s.after (s.server.afterEpoll epoll out) (.epoll b)) := by
  have hinbound := Epoll.inbound_advance hbodies hf.part hf.inbound ha hadv
  refine ⟨hw, hf.part, hinbound, fun q hq => ?_, hf.relayed, hf.calls, fun c => ?_⟩
  · rcases Server.mem_items_afterEpoll hq with hold | ⟨d, rfl, rfl⟩
    · exact hf.messages q hold
    · obtain ⟨c, data, hd, hdata⟩ := hinbound.named d (by
        rw [Epoll.advance_delivered hadv]
        exact List.mem_append_right _ List.mem_cons_self)
      exact isMessage_of_named hbodies hd hdata
  · obtain ⟨texts, hfit, hcalls, hstream⟩ := hf.framed c
    exact ⟨texts, hfit, hcalls, hstream⟩

theorem flowing_takeLock {s : Network} (hf : Flowing lib fresh bodies s)
    (hw : Server.Working (scriptEnv lib fresh) s.server.afterLock)
    (hsending : s.server.sending = []) :
    Flowing lib fresh bodies (s.after s.server.afterLock .takeLock) := by
  refine ⟨hw, hf.part, hf.inbound, fun q hq => ?_, hf.relayed, hf.calls, fun c => ?_⟩
  · exact hf.messages q (Server.mem_items_afterLock hsending hq)
  · obtain ⟨texts, hfit, hcalls, hstream⟩ := hf.framed c
    exact ⟨texts, hfit, hcalls, hstream⟩

theorem flowing_runItem {s : Network} {q : Queued} {rest : List Queued} {host : Host}
    (hf : Flowing lib fresh bodies s) (hsending : s.server.sending = [])
    (htemp : s.server.tempExecuteList = q :: rest)
    (hw : Server.Working (scriptEnv lib fresh)
      (s.server.afterItem q rest host (Server.requests (scriptEnv lib fresh) q))) :
    Flowing lib fresh bodies (s.after
      (s.server.afterItem q rest host (Server.requests (scriptEnv lib fresh) q)) .runItem) := by
  have hq : Host.IsMessage q.item := hf.messages q (by simp [Server.items, htemp])
  refine ⟨hw, hf.part, hf.inbound, fun p hp => ?_, ?_, fun p hp => ?_, fun c => ?_⟩
  · exact hf.messages p (Server.mem_items_afterItem htemp hp)
  · obtain ⟨data, hmsg, -, hlen⟩ := hq
    have hrelayed := hf.relayed
    rw [hsending, List.map_nil, List.append_nil] at hrelayed
    have hall := hrelayed.append (relays_request lib fresh hlen)
    rw [← requests_eq (q := q) _ hmsg] at hall
    have hcalls : ((Server.requests (scriptEnv lib fresh) q).map fun call => (q, call)).map
        Prod.snd = Server.requests (scriptEnv lib fresh) q := by
      rw [List.map_map]
      exact List.map_id _
    simp only [after, Server.afterItem, hcalls, List.map_append, List.map_cons, List.map_nil,
      texts_concat hmsg]
    exact hall
  · simp only [after, Server.afterItem, List.mem_map] at hp
    obtain ⟨call, hcall, rfl⟩ := hp
    exact carriesText_of_mem_requests hq hcall
  · obtain ⟨texts, hfit, hcalls, hstream⟩ := hf.framed c
    exact ⟨texts, hfit, hcalls, hstream⟩

theorem flowing_send {s : Network} {q : Queued} {call : SendCall}
    {rest : List (Queued × SendCall)} {outcome : SendOutcome} (hf : Flowing lib fresh bodies s)
    (ha : Orderly bodies s (.send outcome)) (hsending : s.server.sending = (q, call) :: rest)
    (hw : Server.Working (scriptEnv lib fresh) (s.server.afterSend q call rest outcome)) :
    Flowing lib fresh bodies
      (s.after (s.server.afterSend q call rest outcome) (.send outcome)) := by
  have hafter : s.after (s.server.afterSend q call rest outcome) (.send outcome) =
      s.afterSend (s.server.afterSend q call rest outcome) call outcome := by
    simp only [after, hsending]
  rw [hafter]
  refine ⟨hw, hf.part, hf.inbound, fun p hp => ?_, ?_, fun p hp => ?_, fun c => ?_⟩
  · exact hf.messages p (Server.mem_items_afterSend hsending hp)
  · have hrelayed := hf.relayed
    rw [hsending] at hrelayed
    simp only [afterSend, Server.afterSend, List.map_append, List.map_cons, List.map_nil,
      List.append_assoc, List.singleton_append] at hrelayed ⊢
    exact hrelayed
  · exact hf.calls p (hsending ▸ List.mem_cons_of_mem _ hp)
  · obtain ⟨texts, hframed⟩ := hf.framed c
    have hcall : CarriesText call := hf.calls (q, call) (hsending ▸ List.mem_cons_self)
    exact framed_afterSend hframed hcall fun n hn => ha q call rest n hsending hn

/-- Every orderly step keeps the flow. -/
theorem flowing_step {s s' : Network} {a : Server.Action} (hbodies : Epoll.BodiesFit bodies)
    (hf : Flowing lib fresh bodies s) (ha : Orderly bodies s a)
    (h : step (scriptEnv lib fresh) s a = some s') : Flowing lib fresh bodies s' := by
  obtain ⟨server, hserver, rfl⟩ := Option.map_eq_some_iff.mp h
  have hw := Server.working_step hf.working (takesAll_of_orderly ha) hserver
  rcases Server.step_cases hf.working.sound hserver with
      ⟨-, ⟨c, b, p, rfl, hp, rfl⟩ | ⟨b, epoll, out, rfl, hadv, rfl⟩ | ⟨rfl, -, hsending, rfl⟩ |
      ⟨q, rest, host, rfl, hsending, htemp, -, rfl⟩ | ⟨outcome, q, call, rest, rfl, hsending, rfl⟩⟩
  · exact flowing_client hf ha hw hp rfl
  · exact flowing_epoll hbodies hf ha hw hadv
  · exact flowing_takeLock hf hw hsending
  · exact flowing_runItem hf hsending htemp hw
  · exact flowing_send hf ha hsending hw

end Steps

end Network

end GafqEngine
