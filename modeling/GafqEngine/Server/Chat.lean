import GafqEngine.Connection.Basic
import GafqEngine.Server.Network

/-!
# The server and its chat clients

The whole system: the server with both its threads, and a `chat_client` on every
connection. What the pump of a client gives to its socket arrives at the server, what
the kernel took for a connection arrives at its client, and a client that closes ends
its stream. Where the server is orderly, the texts of a client that were passed to the
script are at any time the first of those it was given, and it has printed the first of
those that were sent to it.
-/

namespace GafqEngine

open CLib Gafq Script Transition

/-- The server with its network, and the client of each connection. -/
structure Chat where
  network : Network
  clients : ConnId → Connection

namespace Chat

def start (serverSocket : ℤ) (readMsg : SocketMsg) (library : Bytes → Value)
    (stack : List Value) (clientMsg : ConnId → SocketMsg) : Chat where
  network := Network.start serverSocket readMsg library stack
  clients c := Connection.start (clientMsg c)

/-- The server makes a step, or a client does. -/
inductive Action where
  | server (a : Server.Action)
  | client (c : ConnId) (a : Connection.Action)

def ofServer : Server.Action → Bool
  | .client _ _ => false
  | _ => true

def effect (s t : Connection) : Option ClientAction :=
  if s.closed = false ∧ t.closed = true then some .closes
  else if t.pump.accepted = s.pump.accepted then none
  else some (.sends (t.pump.accepted.drop s.pump.accepted.length))

def perform (env : Env) (n : Network) (c : ConnId) : Option ClientAction → Option Network
  | none => some n
  | some b => Network.step env n (.client c b)

/-- One step. No bytes arrive at a client but those that the kernel took for it. -/
def step (env : Env) (s : Chat) : Action → Option Chat
  | .server a =>
      if ofServer a then (Network.step env s.network a).map fun n => { s with network := n }
      else none
  | .client c a =>
      (Connection.step chatClient chatClientWriter (s.clients c) a).bind fun t =>
        if t.received <+: s.network.accepted c then
          (perform env s.network c (effect (s.clients c) t)).map fun n =>
            { network := n, clients := Function.update s.clients c t }
        else none

/-- The server is orderly, and the message that a client delivers is the frame of its
next text. -/
def Orderly (texts : ConnId → List Bytes) (s : Chat) : Action → Prop
  | .server a => Network.Orderly texts s.network a
  | .client c (.write (.deliver msg)) => ∃ done text, done ++ [text] <+: texts c ∧
      WritePump.wires (s.clients c).pump.delivered = socketCodec.frames done ∧
      msg.wire = socketCodec.frame text
  | _ => True

theorem exists_next_text_iff {all : List Bytes} {stream wire : Bytes} :
    (∃ n < all.length, stream = socketCodec.frames (all.take n) ∧
        ∃ text ∈ all[n]?, wire = socketCodec.frame text) ↔
      ∃ done text, done ++ [text] <+: all ∧ stream = socketCodec.frames done ∧
        wire = socketCodec.frame text := by
  constructor
  · rintro ⟨n, -, hdone, text, htext, hwire⟩
    refine ⟨all.take n, text, ?_, hdone, hwire⟩
    have hnext : all.take (n + 1) = all.take n ++ [text] := by
      rw [List.take_add_one, htext]
      rfl
    exact hnext ▸ List.take_prefix (n + 1) all
  · rintro ⟨done, text, ⟨rest, rfl⟩, hdone, hwire⟩
    refine ⟨done.length, ?_, ?_, text, ?_, hwire⟩
    · simp
    · simpa using hdone
    · simp

instance (texts : ConnId → List Bytes) (s : Chat) (a : Action) : Decidable (Orderly texts s a) :=
  match a with
  | .server a => inferInstanceAs (Decidable (Network.Orderly texts s.network a))
  | .client c (.write (.deliver msg)) =>
      decidable_of_iff (∃ n < (texts c).length,
        WritePump.wires (s.clients c).pump.delivered = socketCodec.frames ((texts c).take n) ∧
          ∃ text ∈ (texts c)[n]?, msg.wire = socketCodec.frame text) exists_next_text_iff
  | .client _ (.connect _) => .isTrue trivial
  | .client _ (.arrive _) => .isTrue trivial
  | .client _ .fill => .isTrue trivial
  | .client _ (.handleRead _) => .isTrue trivial
  | .client _ (.write (.transfer _ _)) => .isTrue trivial
  | .client _ (.write (.complete _)) => .isTrue trivial
  | .client _ (.write (.fail _)) => .isTrue trivial
  | .client _ (.write .close) => .isTrue trivial

structure Linked (texts : List Bytes) (written accepted : Bytes) (s : Connection) : Prop where
  sound : ∃ m, Connection.Sound chatClient m s
  printed : s.reading.printed = s.reading.accepted
  written : written = s.pump.accepted
  arrived : s.received <+: accepted
  delivered : ∃ done, done <+: texts ∧
    WritePump.wires s.pump.delivered = socketCodec.frames done

structure Flowing (lib : Lib) (fresh : ℕ → SocketMsg) (texts : ConnId → List Bytes)
    (s : Chat) : Prop where
  network : Network.Flowing lib fresh texts s.network
  linked : ∀ c, Linked (texts c) (s.network.written c) (s.network.accepted c) (s.clients c)

def effectBytes : Option ClientAction → Bytes
  | none => []
  | some b => b.bytes

theorem accepted_eq_of_closes {r : Reader} {w : Writer} {s t : Connection}
    {a : Connection.Action} (h : Connection.step r w s a = some t) (hs : s.closed = false)
    (ht : t.closed = true) : t.pump.accepted = s.pump.accepted := by
  cases Connection.moves_of_step h with
  | @write b p hstep =>
      cases b with
      | transfer i n =>
          have hsame := (WritePump.step_transfer hstep).2.1
          simp only [Connection.closed, hsame] at hs ht
          rw [hs] at ht
          cases ht
      | _ => exact Connection.accepted_write hstep rfl
  | _ => rfl

/-- The bytes that reach the network are those that the socket took. -/
theorem accepted_effect {r : Reader} {w : Writer} {s t : Connection} {a : Connection.Action}
    (h : Connection.step r w s a = some t) :
    t.pump.accepted = s.pump.accepted ++ effectBytes (effect s t) := by
  have hprefix : s.pump.accepted <+: t.pump.accepted := by
    cases Connection.moves_of_step h with
    | write hstep => exact Connection.accepted_prefix_write hstep
    | _ => exact List.prefix_rfl
  unfold effect
  split
  · next hcloses =>
      exact (accepted_eq_of_closes h hcloses.1 hcloses.2).trans (List.append_nil _).symm
  · split
    · next hsame => exact hsame.trans (List.append_nil _).symm
    · obtain ⟨bytes, hbytes⟩ := hprefix
      rw [← hbytes]
      simp [effectBytes, ClientAction.bytes]

theorem written_after {s : Network} {server : Server} {a : Server.Action}
    (ha : ofServer a = true) : (s.after server a).written = s.written := by
  cases a with
  | client c b => cases ha
  | send outcome =>
      simp only [Network.after]
      split
      · rfl
      · rfl
  | _ => rfl

theorem accepted_prefix_after (s : Network) (server : Server) (a : Server.Action) (c : ConnId) :
    s.accepted c <+: (s.after server a).accepted c := by
  cases a with
  | send outcome =>
      simp only [Network.after]
      split
      · exact List.prefix_rfl
      · simp only [Network.afterSend]
        split
        · exact List.prefix_append _ _
        · exact List.prefix_rfl
  | _ => exact List.prefix_rfl

section Steps

variable {lib : Lib} {fresh : ℕ → SocketMsg} {texts : ConnId → List Bytes}

theorem flowing_server {s : Chat} {a : Server.Action} {n : Network}
    (htexts : Epoll.BodiesFit texts) (hf : Flowing lib fresh texts s)
    (ha : Network.Orderly texts s.network a) (hserver : ofServer a = true)
    (h : Network.step (scriptEnv lib fresh) s.network a = some n) :
    Flowing lib fresh texts { s with network := n } := by
  refine ⟨Network.flowing_step htexts hf.network ha h, fun c => ?_⟩
  obtain ⟨server, -, rfl⟩ := Option.map_eq_some_iff.mp h
  have hlinked := hf.linked c
  refine ⟨hlinked.sound, hlinked.printed, ?_, ?_, hlinked.delivered⟩
  · rw [written_after hserver]
    exact hlinked.written
  · exact hlinked.arrived.trans (accepted_prefix_after s.network server a c)

theorem linked_client {s : Chat} {c : ConnId} {a : Connection.Action} {t : Connection}
    (hf : Flowing lib fresh texts s) (ha : Orderly texts s (.client c a))
    (h : Connection.step chatClient chatClientWriter (s.clients c) a = some t)
    (harrived : t.received <+: s.network.accepted c) :
    Linked (texts c) (s.network.written c ++ effectBytes (effect (s.clients c) t))
      (s.network.accepted c) t := by
  have hlinked := hf.linked c
  obtain ⟨m, hsound⟩ := hlinked.sound
  refine ⟨⟨m, Connection.sound_step hsound h⟩, Connection.printed_step hlinked.printed h, ?_,
    harrived, ?_⟩
  · rw [accepted_effect h, hlinked.written]
  · cases Connection.moves_of_step h with
    | @write b p hstep =>
        rw [Connection.delivered_write hstep, WritePump.wires_append]
        cases b with
        | deliver msg =>
            obtain ⟨done, text, hprefix, hdone, hwire⟩ := ha
            refine ⟨done ++ [text], hprefix, ?_⟩
            rw [Connection.deliveredBy, hdone, WritePump.wires_singleton, hwire,
              Framing.Codec.frames_append, socketCodec.frames_cons, socketCodec.frames_nil,
              List.append_nil]
        | _ =>
            obtain ⟨done, hprefix, hdone⟩ := hlinked.delivered
            exact ⟨done, hprefix, (List.append_nil _).trans hdone⟩
    | _ => exact hlinked.delivered

theorem flowing_client {s : Chat} {c : ConnId} {a : Connection.Action} {t : Connection}
    {n : Network} (htexts : Epoll.BodiesFit texts) (hf : Flowing lib fresh texts s)
    (ha : Orderly texts s (.client c a))
    (h : Connection.step chatClient chatClientWriter (s.clients c) a = some t)
    (harrived : t.received <+: s.network.accepted c)
    (hn : perform (scriptEnv lib fresh) s.network c (effect (s.clients c) t) = some n) :
    Flowing lib fresh texts { network := n, clients := Function.update s.clients c t } := by
  have hclient := linked_client hf ha h harrived
  obtain ⟨done, hprefix, hdone⟩ := hclient.delivered
  obtain ⟨m, hsound⟩ := hclient.sound
  have hpart : s.network.written c ++ effectBytes (effect (s.clients c) t) <+:
      socketCodec.frames (texts c) := by
    obtain ⟨rest, hrest⟩ := hprefix
    have hframes : socketCodec.frames done <+: socketCodec.frames (texts c) := by
      rw [← hrest, Framing.Codec.frames_append]
      exact List.prefix_append _ _
    rw [hclient.written]
    exact (Connection.accepted_prefix_wires hsound.orderly).trans (hdone ▸ hframes)
  obtain ⟨hflow, hwritten, haccepted⟩ : Network.Flowing lib fresh texts n ∧
      n.written = Function.update s.network.written c
        (s.network.written c ++ effectBytes (effect (s.clients c) t)) ∧
      n.accepted = s.network.accepted := by
    cases heffect : effect (s.clients c) t with
    | none =>
        rw [heffect] at hn
        obtain rfl := Option.some.inj hn
        refine ⟨hf.network, ?_, rfl⟩
        rw [effectBytes, List.append_nil, Function.update_eq_self]
    | some b =>
        rw [heffect] at hn hpart
        have hflow := Network.flowing_step (a := .client c b) htexts hf.network hpart hn
        obtain ⟨server, -, rfl⟩ := Option.map_eq_some_iff.mp hn
        exact ⟨hflow, rfl, rfl⟩
  refine ⟨hflow, fun d => ?_⟩
  rw [hwritten, haccepted]
  rcases eq_or_ne d c with rfl | hd
  · simp only [Function.update_self]
    exact hclient
  · simp only [Function.update_of_ne hd]
    exact hf.linked d

theorem flowing_step {s s' : Chat} {a : Action} (htexts : Epoll.BodiesFit texts)
    (hf : Flowing lib fresh texts s) (ha : Orderly texts s a)
    (h : step (scriptEnv lib fresh) s a = some s') : Flowing lib fresh texts s' := by
  cases a with
  | server a =>
      simp only [step, Option.ite_none_right_eq_some, Option.map_eq_some_iff] at h
      obtain ⟨hserver, n, hn, rfl⟩ := h
      exact flowing_server htexts hf ha hserver hn
  | client c a =>
      simp only [step, Option.bind_eq_some_iff, Option.ite_none_right_eq_some,
        Option.map_eq_some_iff] at h
      obtain ⟨t, ht, harrived, n, hn, rfl⟩ := h
      exact flowing_client htexts hf ha ht harrived hn

end Steps

/-- Two clients connect and write a text each, which asks for a message to the first; the
first prints what arrives. -/
def twoClients (body : Bytes) : List Action :=
  [.server (.epoll (.epollWait [{ fd := 3, epollin := true, epollerr := false }])),
    .server (.epoll (.handle { accepted := some 5 })), .client 0 (.connect false),
    .server (.epoll (.epollWait [{ fd := 3, epollin := true, epollerr := false }])),
    .server (.epoll (.handle { accepted := some 6 })), .client 1 (.connect false),
    .client 1 (.write (.deliver ((default : SocketMsg).pack (body ++ [0])))),
    .client 0 (.write (.deliver ((default : SocketMsg).pack (body ++ [0])))),
    .client 1 (.write (.transfer 0 (headerLength + body.length))), .client 1 (.write (.complete 0)),
    .client 0 (.write (.transfer 0 (headerLength + body.length))), .client 0 (.write (.complete 0)),
    .server (.epoll (.epollWait [{ fd := 6, epollin := true, epollerr := false },
      { fd := 5, epollin := true, epollerr := false }])),
    .server (.epoll (.handle { header := .upTo headerLength, body := .upTo body.length })),
    .server .takeLock, .server .runItem,
    .server (.epoll (.handle { header := .upTo headerLength, body := .upTo body.length })),
    .server (.send (.takes 1028)), .server .takeLock, .server .runItem,
    .client 0 (.arrive (socketCodec.frame body)), .client 0 .fill, .client 0 (.handleRead false),
    .server (.send (.takes 1028)), .client 0 .fill,
    .client 0 (.arrive (socketCodec.frame body)), .client 0 (.handleRead false),
    .client 0 .fill, .client 0 (.handleRead false), .client 0 .fill, .client 0 (.handleRead false)]

end Chat

end GafqEngine
