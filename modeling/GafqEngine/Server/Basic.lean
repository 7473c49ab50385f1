import GafqEngine.EpollLoop.Basic
import GafqEngine.Script.Relay
import GafqEngine.Transition.Run

/-!
# The server

The two threads of the program together, with their clients. The thread of
`init_epool` makes the steps of the epoll loop, and what it hands to `ExecGafq`
waits in the queue; the main thread takes the queue under the lock and works the
copy off with the committed script. The script reaches the kernel only by its
`send` calls, and these are steps of their own, so the other thread can close and
accept between the call of `start_action` and the `send`. Clients send, shut
their side down, close and reset at any time. A `send` on a connection that was
reset raises `SIGPIPE` and ends the process.

With each item the state keeps the connection its data was read from and the
descriptor table at that moment; it records what the descriptor of each item
named when it was worked off, and which connection took bytes of each `send`.
-/

namespace GafqEngine

open CLib Gafq Script SocketMsg

inductive ClientAction where
  | sends (bytes : Bytes)
  | halfCloses
  | closes
  | resets

/-- The peer after an action of the client. After the end of its stream it sends no more.
A client that closes with bytes unread, or whose kernel gets more for it, answers with a
reset: `.resets` behind `.closes`. -/
def Peer.act (p : Peer) : ClientAction → Option Peer
  | .sends bytes => if p.eof then none else some { p with unread := p.unread ++ bytes }
  | .halfCloses => some { p with eof := true }
  | .closes => some { p with eof := true }
  | .resets => some { p with eof := true, reset := true }

/-- An item of the queue with the connection its data was read from, the
connections that the numbers named when it was received, and the identity that
the next connection was to get. -/
structure Queued where
  item : GafqItem
  source : Option ConnId
  names : ℤ → Option ConnId
  nextConn : ConnId

def Queued.ofDelivery (k : Kernel) (d : Delivery) : Queued where
  item := d.args.item
  source := d.conn
  names := k.names
  nextConn := k.nextConn

/-- An item that was passed to the script, and what its descriptor named then. -/
structure Dispatch where
  queued : Queued
  fdConn : Option ConnId

/-- A `send` call made for an item: its number, and the connection that took bytes. -/
structure Sent where
  queued : Queued
  toFd : ℤ
  takenBy : Option ConnId

/-- The epoll loop, `wait_execute_list`, the rest of `temp_execute_list`, the
`send` calls that the running item has still to make, the script and the gafq
stack, and whether the process is alive; then the items that were taken under the
lock, those passed to the script, and the `send` calls that were made. -/
structure Server where
  epoll : Epoll
  waitExecuteList : List Queued
  tempExecuteList : List Queued
  sending : List (Queued × SendCall)
  host : Host
  alive : Bool
  taken : List Queued
  dispatched : List Dispatch
  sent : List Sent

namespace Server

/-- The server before its first event: nobody has connected. -/
def start (serverSocket : ℤ) (readMsg : SocketMsg) (library : Bytes → Value)
    (stack : List Value) : Server where
  epoll :=
    Epoll.start serverSocket (fun _ => { unread := [], eof := false, reset := false }) readMsg
  waitExecuteList := []
  tempExecuteList := []
  sending := []
  host := Host.start library stack
  alive := true
  taken := []
  dispatched := []
  sent := []

/-- An action of a client, a step of the epoll thread, the locked section of
`LoopExecute`, an item of its loop, or the `send` of the running item. -/
inductive Action where
  | client (c : ConnId) (a : ClientAction)
  | epoll (a : Epoll.Action)
  | takeLock
  | runItem
  | send (outcome : SendOutcome)

def afterEpoll (s : Server) (epoll : Epoll) (out : Option Delivery) : Server :=
  { s with
    epoll := epoll
    waitExecuteList :=
      s.waitExecuteList ++ (out.map (Queued.ofDelivery epoll.kernel)).toList }

def afterLock (s : Server) : Server :=
  { s with
    waitExecuteList := []
    tempExecuteList := copyBatch s.waitExecuteList
    taken := s.taken ++ copyBatch s.waitExecuteList }

def afterItem (s : Server) (q : Queued) (rest : List Queued) (host : Host)
    (calls : List SendCall) : Server :=
  { s with
    tempExecuteList := rest
    sending := calls.map fun call => (q, call)
    host := host
    dispatched := s.dispatched ++
      [{ queued := q, fdConn := s.epoll.kernel.names q.item.fd }] }

def afterSend (s : Server) (q : Queued) (call : SendCall) (rest : List (Queued × SendCall))
    (outcome : SendOutcome) : Server :=
  { s with
    sending := rest
    alive := !s.epoll.kernel.raisesSigpipe call.toFd
    sent := s.sent ++
      [{ queued := q, toFd := call.toFd
         takenBy := s.epoll.kernel.takenBy call.toFd outcome }] }

/-- The main thread: it takes the lock again when it has worked off its copy. -/
def mainStep (env : Env) (s : Server) : Action → Option Server
  | .takeLock =>
      if s.tempExecuteList.isEmpty ∧ s.sending.isEmpty then some s.afterLock else none
  | .runItem =>
      match s.sending, s.tempExecuteList with
      | [], q :: rest =>
          match Host.runItem env s.host q.item with
          | none => some { s with alive := false }
          | some host =>
              some (s.afterItem q rest host
                (host.script.sends.drop s.host.script.sends.length))
      | _, _ => none
  | .send outcome =>
      match s.sending with
      | [] => none
      | (q, call) :: rest => some (s.afterSend q call rest outcome)
  | _ => none

/-- One step. Nothing happens after the process ended. -/
def step (env : Env) (s : Server) (a : Action) : Option Server :=
  if s.alive = false then none
  else
    match a with
    | .client c b =>
        ((s.epoll.kernel.peers c).act b).map fun p =>
          let kernel := { s.epoll.kernel with peers := Function.update s.epoll.kernel.peers c p }
          { s with epoll := { s.epoll with kernel := kernel } }
    | .epoll b => (s.epoll.advance b).map fun r => s.afterEpoll r.1 r.2
    | a => mainStep env s a

def requests (env : Env) (q : Queued) : List SendCall :=
  (q.item.msg.bind fun msg => request env msg.data).toList

/-- An item as the epoll loop queues it: its data was read from the number it
carries, and the connections that numbers name now were named so then, unless
they are new. -/
structure Pending (k : Kernel) (q : Queued) : Prop where
  message : ∃ data, q.item.msg = some { action := ascii "start_action", data := data } ∧
    NulFree data
  source : q.source = q.names q.item.fd
  known : ∀ fd c, q.names fd = some c → c < q.nextConn
  kept : ∀ fd c, k.names fd = some c → c < q.nextConn → q.names fd = some c
  bound : q.nextConn ≤ k.nextConn

def items (s : Server) : List Queued :=
  s.waitExecuteList ++ (s.tempExecuteList ++ s.sending.map Prod.fst)

/-- What holds in every state: the functions of the script are in place, numbers
name connections that were accepted, and the items are as they were queued. -/
structure Sound (s : Server) : Prop where
  ready : Ready s.host.script
  accepted : ∀ fd c, s.epoll.kernel.names fd = some c → c < s.epoll.kernel.nextConn
  pending : ∀ q ∈ s.items, Pending s.epoll.kernel q

theorem sound_start (serverSocket : ℤ) (readMsg : SocketMsg) (library : Bytes → Value)
    (stack : List Value) : Sound (start serverSocket readMsg library stack) where
  ready := Host.ready_start library stack
  accepted fd c h := by cases h
  pending q h := by cases h

theorem Pending.later {k k' : Kernel} {q : Queued} (h : Pending k q) (hk : Kernel.Later k k') :
    Pending k' q := by
  refine ⟨h.message, h.source, h.known, fun fd c hc hlt => ?_, h.bound.trans hk.nextConn⟩
  rcases hk.names fd c hc with hold | ⟨hle, -⟩
  · exact h.kept fd c hold hlt
  · exact absurd (hlt.trans_le h.bound) (Nat.not_lt.mpr hle)

theorem pending_ofDelivery {k : Kernel} (haccepted : ∀ fd c, k.names fd = some c → c < k.nextConn)
    (fd : ℤ) (bytes behind : Bytes) :
    Pending k (Queued.ofDelivery k (Epoll.delivery k fd bytes behind)) where
  message := ⟨Epoll.receivedText bytes behind, rfl, nulFree_cstr _⟩
  source := rfl
  known := haccepted
  kept _ _ h _ := h
  bound := le_rfl

theorem accepted_later {k k' : Kernel} (h : ∀ fd c, k.names fd = some c → c < k.nextConn)
    (hk : Kernel.Later k k') : ∀ fd c, k'.names fd = some c → c < k'.nextConn := by
  intro fd c hc
  rcases hk.names fd c hc with hold | ⟨-, hlt⟩
  · exact (h fd c hold).trans_le hk.nextConn
  · exact hlt

theorem runItem_pending (env : Env) {host : Host} {k : Kernel} {q : Queued}
    (hs : Ready host.script) (hq : Pending k q) :
    ∃ host', Host.runItem env host q.item = some host' ∧ Ready host'.script ∧
      host'.script.sends.drop host.script.sends.length = requests env q := by
  obtain ⟨data, hmsg, hnul⟩ := hq.message
  obtain ⟨host', hrun, hready, hsends, -⟩ := Host.runItem_message env hs hmsg
  refine ⟨host', hrun, hready, ?_⟩
  rw [hsends, cstr_of_nulFree hnul, List.drop_left, requests, hmsg, Option.bind_some]

/-- What a step from a sound state can be. -/
theorem step_cases {env : Env} {s s' : Server} {a : Action} (hs : Sound s)
    (h : step env s a = some s') :
    s.alive = true ∧
      ((∃ c b p, a = .client c b ∧ (s.epoll.kernel.peers c).act b = some p ∧
          s' = { s with epoll := { s.epoll with kernel := { s.epoll.kernel with
            peers := Function.update s.epoll.kernel.peers c p } } }) ∨
        (∃ b epoll out, a = .epoll b ∧ s.epoll.advance b = some (epoll, out) ∧
          s' = s.afterEpoll epoll out) ∨
        (a = .takeLock ∧ s.tempExecuteList = [] ∧ s.sending = [] ∧ s' = s.afterLock) ∨
        (∃ q rest host, a = .runItem ∧ s.sending = [] ∧ s.tempExecuteList = q :: rest ∧
          Ready host.script ∧ s' = s.afterItem q rest host (requests env q)) ∨
        ∃ outcome q call rest, a = .send outcome ∧ s.sending = (q, call) :: rest ∧
          s' = s.afterSend q call rest outcome) := by
  unfold step at h
  split at h
  · cases h
  rename_i halive
  refine ⟨by simpa using halive, ?_⟩
  cases a with
  | client c b =>
      obtain ⟨p, hp, rfl⟩ := Option.map_eq_some_iff.mp h
      exact Or.inl ⟨c, b, p, rfl, hp, rfl⟩
  | epoll b =>
      obtain ⟨⟨epoll, out⟩, hadv, rfl⟩ := Option.map_eq_some_iff.mp h
      exact Or.inr (Or.inl ⟨b, epoll, out, rfl, hadv, rfl⟩)
  | takeLock =>
      simp only [mainStep, Option.ite_none_right_eq_some, List.isEmpty_iff,
        Option.some.injEq] at h
      exact Or.inr (Or.inr (Or.inl ⟨rfl, h.1.1, h.1.2, h.2.symm⟩))
  | runItem =>
      refine Or.inr (Or.inr (Or.inr (Or.inl ?_)))
      cases hsending : s.sending with
      | cons p ps => simp [mainStep, hsending] at h
      | nil =>
          cases htemp : s.tempExecuteList with
          | nil => simp [mainStep, hsending, htemp] at h
          | cons q rest =>
              have hq : Pending s.epoll.kernel q := hs.pending q (by simp [items, htemp])
              obtain ⟨host, hrun, hready, hcalls⟩ := runItem_pending env hs.ready hq
              simp only [mainStep, hsending, htemp, hrun, hcalls, Option.some.injEq] at h
              exact ⟨q, rest, host, rfl, rfl, rfl, hready, h.symm⟩
  | send outcome =>
      refine Or.inr (Or.inr (Or.inr (Or.inr ?_)))
      cases hsending : s.sending with
      | nil => simp [mainStep, hsending] at h
      | cons p rest =>
          simp only [mainStep, hsending, Option.some.injEq] at h
          exact ⟨outcome, p.1, p.2, rest, rfl, rfl, h.symm⟩

theorem mem_items_afterEpoll {s : Server} {epoll : Epoll} {out : Option Delivery} {q : Queued}
    (hq : q ∈ (s.afterEpoll epoll out).items) :
    q ∈ s.items ∨ ∃ d, out = some d ∧ q = Queued.ofDelivery epoll.kernel d := by
  cases out with
  | none => simpa [items, afterEpoll] using hq
  | some d =>
      simp only [items, afterEpoll, Option.map_some, Option.toList_some, List.append_assoc,
        List.mem_append, List.mem_singleton] at hq ⊢
      rcases hq with hq | hq | hq | hq
      · exact Or.inl (Or.inl hq)
      · exact Or.inr ⟨d, rfl, hq⟩
      · exact Or.inl (Or.inr (Or.inl hq))
      · exact Or.inl (Or.inr (Or.inr hq))

theorem mem_items_of_batch {s : Server} {batch taken : List Queued} {q : Queued}
    (hsending : s.sending = [])
    (hq : q ∈ { s with waitExecuteList := [], tempExecuteList := batch, taken := taken }.items) :
    q ∈ batch := by
  simpa [items, hsending] using hq

theorem mem_items_afterLock {s : Server} {q : Queued} (hsending : s.sending = [])
    (hq : q ∈ s.afterLock.items) : q ∈ s.items :=
  List.mem_append_left _ (mem_of_mem_copyBatch (mem_items_of_batch hsending hq))

theorem mem_items_afterItem {s : Server} {p q : Queued} {rest : List Queued} {host : Host}
    {calls : List SendCall} (htemp : s.tempExecuteList = q :: rest)
    (hp : p ∈ (s.afterItem q rest host calls).items) : p ∈ s.items := by
  simp only [items, afterItem, htemp, List.mem_append, List.mem_map, List.mem_cons] at hp ⊢
  rcases hp with hp | hp | ⟨_, ⟨call, -, rfl⟩, rfl⟩
  · exact Or.inl hp
  · exact Or.inr (Or.inl (Or.inr hp))
  · exact Or.inr (Or.inl (Or.inl rfl))

theorem mem_items_afterSend {s : Server} {p q : Queued} {call : SendCall}
    {rest : List (Queued × SendCall)} {outcome : SendOutcome}
    (hsending : s.sending = (q, call) :: rest)
    (hp : p ∈ (s.afterSend q call rest outcome).items) : p ∈ s.items := by
  simp only [items, afterSend, hsending, List.map_cons, List.mem_append, List.mem_cons] at hp ⊢
  rcases hp with hp | hp | hp
  · exact Or.inl hp
  · exact Or.inr (Or.inl hp)
  · exact Or.inr (Or.inr (Or.inr hp))

theorem run_takeLock_runItem {env : Env} {s : Server} {q : Queued} {host : Host}
    (halive : s.alive = true) (htemp : s.tempExecuteList = []) (hsending : s.sending = [])
    (hwait : s.waitExecuteList = [q]) (hrun : Host.runItem env s.host q.item = some host) :
    Transition.run (step env) s [.takeLock, .runItem] =
      some ({ s with waitExecuteList := [], taken := s.taken ++ [q] }.afterItem q [] host
        (host.script.sends.drop s.host.script.sends.length)) := by
  have hbatch : copyBatch [q] = [q] := copyBatch_of_lt (Nat.one_lt_two_pow (by decide))
  have hlock : step env s .takeLock =
      some { s with
        waitExecuteList := [], tempExecuteList := [q], taken := s.taken ++ [q] } := by
    simp [step, halive, mainStep, htemp, hsending, afterLock, hwait, hbatch]
  rw [Transition.run_cons, hlock, Option.bind_some, Transition.run_cons]
  simp [step, halive, mainStep, hsending, hrun, afterItem]

/-- Every step keeps the state sound. -/
theorem sound_step {env : Env} {s s' : Server} {a : Action} (hs : Sound s)
    (h : step env s a = some s') : Sound s' := by
  rcases step_cases hs h with
      ⟨-, ⟨c, b, p, -, -, rfl⟩ | ⟨b, epoll, out, -, hadv, rfl⟩ | ⟨-, htemp, hsending, rfl⟩ |
      ⟨q, rest, host, -, hsending, htemp, hready, rfl⟩ |
      ⟨outcome, q, call, rest, -, hsending, rfl⟩⟩
  · have hlater : Kernel.Later s.epoll.kernel { s.epoll.kernel with
        peers := Function.update s.epoll.kernel.peers c p } := .of_names_eq rfl rfl
    exact ⟨hs.ready, hs.accepted, fun q hq => (hs.pending q hq).later hlater⟩
  · have hlater := Epoll.later_advance hadv
    have haccepted := accepted_later hs.accepted hlater
    refine ⟨hs.ready, haccepted, fun q hq => ?_⟩
    rcases mem_items_afterEpoll hq with hold | ⟨d, rfl, rfl⟩
    · exact (hs.pending q hold).later hlater
    · obtain ⟨fd, bytes, behind, rfl⟩ := Epoll.advance_delivery hadv
      exact pending_ofDelivery haccepted fd bytes behind
  · exact ⟨hs.ready, hs.accepted, fun q hq => hs.pending q (mem_items_afterLock hsending hq)⟩
  · exact ⟨hready, hs.accepted, fun p hp => hs.pending p (mem_items_afterItem htemp hp)⟩
  · exact ⟨hs.ready, hs.accepted, fun p hp => hs.pending p (mem_items_afterSend hsending hp)⟩

theorem sound_of_run {env : Env} {serverSocket : ℤ} {readMsg : SocketMsg}
    {library : Bytes → Value} {stack : List Value} {as : List Action} {s : Server}
    (hrun : Transition.run (step env) (start serverSocket readMsg library stack) as = some s) :
    Sound s :=
  Transition.invariant (fun _ _ _ hs h => sound_step hs h)
    (sound_start serverSocket readMsg library stack) hrun

/-! ### One message of the first client -/

/-- The first client connects, sends a frame and shuts its side down; then it closes or
resets, and is readable. -/
def firstClient (body : Bytes) (reset : Bool) : List Action :=
  [.epoll (.epollWait [{ fd := 3, epollin := true, epollerr := false }]),
    .epoll (.handle { accepted := some 5 }),
    .client 0 (.sends (socketCodec.frame body)),
    .client 0 .halfCloses,
    .client 0 (if reset then .resets else .closes),
    .epoll (.epollWait [{ fd := 5, epollin := true, epollerr := false }])]

/-- The frame is read in two whole reads. -/
def oneMessage (body : Bytes) (reset : Bool) : List Action :=
  firstClient body reset ++
    [.epoll (.handle { header := .upTo headerLength, body := .upTo body.length })]

def connected (env : Env) (body : Bytes) (reset : Bool) : Server :=
  (Transition.run (step env) (start 3 default (fun _ => .nil) []) (firstClient body reset)).get
    (by cases reset <;> rfl)

theorem connected_epoll (env : Env) (body : Bytes) (reset : Bool) :
    (connected env body reset).epoll.batch = [{ fd := 5, epollin := true, epollerr := false }] ∧
      (connected env body reset).epoll.kernel.serverSocket = 3 ∧
      (connected env body reset).epoll.kernel.names 5 = some 0 ∧
      (connected env body reset).epoll.kernel.peers 0 =
        ⟨socketCodec.frame body, true, reset⟩ := by
  cases reset with
  | false => exact ⟨rfl, rfl, rfl, rfl⟩
  | true => exact ⟨rfl, rfl, rfl, rfl⟩

def messageOf (body : Bytes) : Delivery :=
  { conn := some 0, args := startActionArgs 5 (Epoll.receivedText body []) }

def received (env : Env) (body : Bytes) (reset : Bool) (m : SocketMsg) : Server :=
  let s := connected env body reset
  s.afterEpoll
    { s.epoll with
      kernel := (s.epoll.kernel.afterRead 5 0 headerLength
        (some (socketCodec.header body.length))
        { unread := body, eof := true, reset := reset }).afterRead 5 0 (body.length + 1) (some body)
        { unread := [], eof := true, reset := reset }
      batch := []
      readMsg := m
      delivered := [messageOf body] }
    (some (messageOf body))

theorem run_oneMessage (env : Env) (body : Bytes) (reset : Bool) (hne : body ≠ [])
    (hlen : body.length ≤ maxBodyLength) :
    ∃ m, Transition.run (step env) (start 3 default (fun _ => .nil) []) (oneMessage body reset) =
      some (received env body reset m) := by
  have hrun : Transition.run (step env) (start 3 default (fun _ => .nil) [])
      (firstClient body reset) = some (connected env body reset) := (Option.some_get _).symm
  have hwidth : (socketCodec.header body.length).length = headerLength :=
    socketCodec.length_header _ hlen
  have hheaderNe : socketCodec.header body.length ≠ [] :=
    List.ne_nil_of_length_pos (by rw [hwidth]; decide)
  obtain ⟨hbatch, hserver, hname, hpeer⟩ := connected_epoll env body reset
  have hheader : ((connected env body reset).epoll.kernel.peers 0).read headerLength
      (.upTo headerLength) = some (some (socketCodec.header body.length), ⟨body, true, reset⟩) := by
    rw [hpeer, ← hwidth]
    exact Peer.read_append rfl hheaderNe le_rfl
  have hbody : Peer.read ⟨body, true, reset⟩ (body.length + 1) (.upTo body.length) =
      some (some body, ⟨[], true, reset⟩) :=
    Peer.read_append (List.append_nil body).symm hne (Nat.le_succ _)
  obtain ⟨m, hm⟩ := Epoll.advance_handle_of_reads
    { header := .upTo headerLength, body := .upTo body.length } hbatch
    (by rw [hserver]; decide) rfl hname hheader hheaderNe (parseHeader_sprintfWidth hlen) hbody
  refine ⟨m, ?_⟩
  rw [oneMessage, Transition.run_concat, hrun, Option.bind_some]
  cases reset with
  | false =>
      simp only [step, hm]
      rfl
  | true =>
      simp only [step, hm]
      rfl

/-- What the script runs on: one request is known. -/
def oneTarget : Env where
  lib := default
  json := Host.oneRequest
  fresh _ := default

/-- Two clients connect and send a frame each. The second is read while the item of the
first is worked off, and every `send` is taken. -/
def twoClients (body : Bytes) : List Action :=
  [.epoll (.epollWait [{ fd := 3, epollin := true, epollerr := false }]),
    .epoll (.handle { accepted := some 5 }),
    .epoll (.epollWait [{ fd := 3, epollin := true, epollerr := false }]),
    .epoll (.handle { accepted := some 6 }),
    .client 0 (.sends (socketCodec.frame body)),
    .client 1 (.sends (socketCodec.frame body)),
    .epoll (.epollWait [{ fd := 5, epollin := true, epollerr := false },
      { fd := 6, epollin := true, epollerr := false }]),
    .epoll (.handle { header := .upTo headerLength, body := .upTo body.length }),
    .takeLock, .runItem,
    .epoll (.handle { header := .upTo headerLength, body := .upTo body.length }),
    .send (.takes 1028), .takeLock, .runItem, .send (.takes 1028)]

theorem exists_run_twoClients : ∃ s,
    Transition.run (step oneTarget) (start 3 default (fun _ => .nil) [])
      (twoClients Host.requestText) = some s :=
  Option.isSome_iff_exists.mp (by decide +kernel)

end Server

end GafqEngine
