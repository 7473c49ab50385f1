import GafqEngine.ChatClient.Input
import GafqEngine.WritePump.Basic

/-!
# What the chat client delivers

The main thread posts a `do_write` for every copy of every line it reads, and at
the end of input a `do_close`. The io thread runs the posted handlers, in any
order, between the completions of the connect and of the writes. A socket that is
not connected yet may fail a write, one that is connected does not; after
`do_close` it accepts nothing.

The bytes accepted before the close are the frames of all lines that fit, if no
such line stands behind one that is too long, the handlers run in their order,
no write fails before the connection is there, and `do_close` does not run while
bytes wait (`InTurn`).
-/

namespace GafqEngine

open CLib Transition

inductive Handler where
  | doWrite (msg : SocketMsg)
  | doClose

/-- The client: the write pump with its socket, whether the connection is
established, the handlers that were posted and have not run, and those that the
main thread has still to post. -/
structure ChatClient where
  pump : WritePump
  connected : Bool
  posted : List Handler
  toPost : List Handler

namespace ChatClient

/-- The calls of `write` for the lines, the `k`-th in a fresh message: `cnt` copies
of each. -/
def writes (fresh : ℕ → SocketMsg) (cnt : ℤ) : ℕ → List Bytes → List SocketMsg
  | _, [] => []
  | k, line :: lines =>
      List.replicate cnt.toNat ((fresh k).pack (line ++ [0])) ++ writes fresh cnt (k + 1) lines

/-- What `main` posts for the text on standard input. -/
def posts (fresh : ℕ → SocketMsg) (cnt : ℤ) (text : Bytes) : List Handler :=
  (writes fresh cnt 0 (sentLines text)).map .doWrite ++ [.doClose]

def start (fresh : ℕ → SocketMsg) (cnt : ℤ) (text : Bytes) : ChatClient where
  pump := WritePump.start
  connected := false
  posted := []
  toPost := posts fresh cnt text

/-- The main thread posts a handler; the io thread runs one, completes the connect,
or has a write go on, complete or fail. -/
inductive Action where
  | post
  | runHandler (i : ℕ)
  | connect
  | transfer (i n : ℕ)
  | complete (i : ℕ)
  | fail (i : ℕ)

def runHandler (p : WritePump) : Handler → WritePump
  | .doWrite msg => p.deliver msg
  | .doClose => p.doClose

def step (s : ChatClient) : Action → Option ChatClient
  | .post =>
      match s.toPost with
      | [] => none
      | h :: rest => some { s with posted := s.posted ++ [h], toPost := rest }
  | .runHandler i =>
      s.posted[i]?.map fun h =>
        { s with posted := s.posted.eraseIdx i, pump := runHandler s.pump h }
  | .connect => if s.connected ∨ s.pump.closed then none else some { s with connected := true }
  | .transfer i n =>
      if s.connected then
        (WritePump.step chatClientWriter s.pump (.transfer i n)).map fun p => { s with pump := p }
      else none
  | .complete i =>
      (WritePump.step chatClientWriter s.pump (.complete i)).map fun p => { s with pump := p }
  | .fail i =>
      if s.connected ∧ s.pump.closed = false then none
      else (WritePump.step chatClientWriter s.pump (.fail i)).map fun p => { s with pump := p }

/-- The bodies that are to arrive: `cnt` copies of each line that fits. -/
def expected (cnt : ℤ) (text : Bytes) : List Bytes :=
  ((inputLines text).filter fits).flatMap (List.replicate cnt.toNat)

/-- Before it was closed, the socket accepted the frames of all of them. -/
def Lossless (cnt : ℤ) (text : Bytes) (s : ChatClient) : Prop :=
  s.pump.closed = true → s.pump.accepted = socketCodec.frames (expected cnt text)

/-- Behind the first line that is too long there is none that fits, or nothing is
sent anyway. -/
def NoLineCutOff (cnt : ℤ) (text : Bytes) : Prop :=
  cnt ≤ 0 ∨ ∀ line ∈ (inputLines text).dropWhile fits, fits line = false

/-- No byte of a message waits to be accepted. -/
def Flushed (p : WritePump) : Prop :=
  p.writeMsgs = [] ∨ ∃ msg write, p.writeMsgs = [msg] ∧ p.writes = [write] ∧
    write.sent = write.size

/-- Handlers run in the order of their posts, `do_close` not while bytes wait, and
no write fails on an open socket. -/
def InTurn (s : ChatClient) : Action → Prop
  | .runHandler i => i = 0 ∧ ∀ rest, s.posted = .doClose :: rest → Flushed s.pump
  | .fail _ => s.pump.closed = true
  | _ => True

theorem flushed_iff {p : WritePump} :
    p.writeMsgs.length = 0 ∨
        (p.writeMsgs.length = 1 ∧ p.writes.length = 1 ∧ ∀ write ∈ p.writes,
          write.sent = write.size) ↔ Flushed p := by
  rw [Flushed, List.length_eq_zero_iff, List.length_eq_one_iff, List.length_eq_one_iff]
  constructor
  · rintro (hnil | ⟨⟨msg, hmsg⟩, ⟨write, hwrite⟩, hsent⟩)
    · exact Or.inl hnil
    · exact Or.inr ⟨msg, write, hmsg, hwrite, hsent write (by simp [hwrite])⟩
  · rintro (hnil | ⟨msg, write, hmsg, hwrite, hsent⟩)
    · exact Or.inl hnil
    · exact Or.inr ⟨⟨msg, hmsg⟩, ⟨write, hwrite⟩, by simp [hwrite, hsent]⟩

instance (p : WritePump) : Decidable (Flushed p) := decidable_of_iff _ flushed_iff

def Handler.closes : Handler → Bool
  | .doWrite _ => false
  | .doClose => true

theorem inTurn_runHandler_iff {s : ChatClient} {i : ℕ} :
    (i = 0 ∧ (s.posted.head?.any Handler.closes = true → Flushed s.pump)) ↔
      InTurn s (.runHandler i) := by
  apply and_congr_right
  intro _
  constructor
  · intro h rest hposted
    exact h (by rw [hposted]; rfl)
  · intro h hcloses
    obtain ⟨handler, hhead, hcloses⟩ := (Option.any_eq_true _ _).mp hcloses
    cases handler with
    | doWrite msg => cases hcloses
    | doClose => exact h _ (List.eq_cons_of_mem_head? hhead)

instance (s : ChatClient) : ∀ a, Decidable (InTurn s a)
  | .runHandler _ => decidable_of_iff _ inTurn_runHandler_iff
  | .fail _ => inferInstanceAs (Decidable (s.pump.closed = true))
  | .post => isTrue trivial
  | .connect => isTrue trivial
  | .transfer _ _ => isTrue trivial
  | .complete _ => isTrue trivial

theorem accepted_of_flushed {p : WritePump} (h : p.Orderly) (hfailed : p.failed = false)
    (hflushed : Flushed p) : p.accepted = WritePump.wires p.delivered := by
  rcases h with hidle | ⟨msg, rest, sent, hwriting⟩ | ⟨msg, rest, sent, hfail⟩
  · exact hidle.accepted
  · rcases hflushed with hnil | ⟨msg', write, hmsgs, hwrites, hsent⟩
    · rw [hwriting.writeMsgs] at hnil
      cases hnil
    · obtain ⟨done, hdelivered, -, haccepted⟩ := hwriting.delivered
      obtain ⟨rfl, rfl⟩ := List.cons.inj (hwriting.writeMsgs.symm.trans hmsgs)
      obtain ⟨rfl, -⟩ := List.cons.inj (hwriting.writes.symm.trans hwrites)
      rw [haccepted, hdelivered, WritePump.wire_take_of_complete hwriting.bound hsent,
        WritePump.wires_append, WritePump.wires_singleton]
  · rw [hfail.failed] at hfailed
    cases hfailed

structure Open (msgs : List SocketMsg) (s : ChatClient) : Prop where
  orderly : s.pump.Orderly
  failed : s.pump.failed = false
  closed : s.pump.closed = false
  handlers : msgs.map .doWrite ++ [.doClose] =
    s.pump.delivered.map .doWrite ++ (s.posted ++ s.toPost)

structure Done (msgs : List SocketMsg) (s : ChatClient) : Prop where
  orderly : s.pump.Orderly
  closed : s.pump.closed = true
  accepted : s.pump.accepted = WritePump.wires msgs
  posted : s.posted = []
  toPost : s.toPost = []

theorem map_doWrite_append_inj {msgs ms : List SocketMsg} {hs : List Handler}
    (h : msgs.map .doWrite ++ [.doClose] = ms.map .doWrite ++ .doClose :: hs) :
    ms = msgs ∧ hs = [] := by
  induction msgs generalizing ms with
  | nil =>
      cases ms with
      | nil => exact ⟨rfl, (List.cons.inj h).2.symm⟩
      | cons m ms => cases (List.cons.inj h).1
  | cons msg msgs ih =>
      cases ms with
      | nil => cases (List.cons.inj h).1
      | cons m ms =>
          obtain ⟨hm, htail⟩ := List.cons.inj h
          obtain ⟨rfl, rfl⟩ := ih htail
          cases hm
          exact ⟨rfl, rfl⟩

theorem turn_of_open {msgs : List SocketMsg} {s : ChatClient} {h : Handler} {rest : List Handler}
    (ho : Open msgs s) (hposted : s.posted = h :: rest)
    (hflushed : h = .doClose → Flushed s.pump) :
    Open msgs { s with posted := rest, pump := runHandler s.pump h } ∨
      Done msgs { s with posted := rest, pump := runHandler s.pump h } := by
  have hhandlers := ho.handlers
  rw [hposted] at hhandlers
  cases h with
  | doWrite msg =>
      obtain ⟨writes, hdeliver⟩ := s.pump.deliver_eq msg
      have horderly : (s.pump.deliver msg).Orderly :=
        WritePump.orderly_step (w := chatClientWriter) (a := .deliver msg) ho.orderly rfl
      refine Or.inl ⟨horderly, ?_, ?_, ?_⟩
      · simp only [runHandler, hdeliver, ho.failed]
      · simp only [runHandler, hdeliver, ho.closed]
      · simp only [runHandler, hdeliver, hhandlers]
        simp
  | doClose =>
      obtain ⟨hdelivered, hrest⟩ := map_doWrite_append_inj hhandlers
      obtain ⟨hrest, htoPost⟩ := List.append_eq_nil_iff.mp hrest
      have horderly : s.pump.doClose.Orderly :=
        WritePump.orderly_step (w := chatClientWriter) (a := .close) ho.orderly rfl
      have haccepted := accepted_of_flushed ho.orderly ho.failed (hflushed rfl)
      rw [hdelivered] at haccepted
      exact Or.inr ⟨horderly, rfl, haccepted, hrest, htoPost⟩

/-- A step of the pump that neither closes it nor fails keeps the client open. -/
theorem open_of_pump {msgs : List SocketMsg} {s : ChatClient} {q : WritePump}
    {a : WritePump.Action} (ho : Open msgs s)
    (hstep : WritePump.step chatClientWriter s.pump a = some q) (hclosed : q.closed = s.pump.closed)
    (hfailed : q.failed = s.pump.failed) (hdelivered : q.delivered = s.pump.delivered) :
    Open msgs { s with pump := q } where
  orderly := WritePump.orderly_step ho.orderly hstep
  failed := hfailed.trans ho.failed
  closed := hclosed.trans ho.closed
  handlers := by simp only [hdelivered, ho.handlers]

theorem step_of_open {msgs : List SocketMsg} {s s' : ChatClient} {a : Action} (ho : Open msgs s)
    (ha : InTurn s a) (h : step s a = some s') : Open msgs s' ∨ Done msgs s' := by
  cases a with
  | post =>
      cases htoPost : s.toPost with
      | nil => simp [step, htoPost] at h
      | cons p rest =>
          simp only [step, htoPost, Option.some.injEq] at h
          obtain rfl := h
          refine Or.inl ⟨ho.orderly, ho.failed, ho.closed, ?_⟩
          rw [ho.handlers, htoPost, List.append_assoc, List.singleton_append]
  | runHandler i =>
      obtain ⟨rfl, hflushed⟩ := ha
      simp only [step, Option.map_eq_some_iff] at h
      obtain ⟨p, hp, rfl⟩ := h
      cases hposted : s.posted with
      | nil => simp [hposted] at hp
      | cons q rest =>
          obtain rfl : q = p := by simpa [hposted] using hp
          exact turn_of_open ho hposted fun hq => hflushed rest (hq ▸ hposted)
  | connect =>
      simp only [step, Option.ite_none_left_eq_some, Option.some.injEq] at h
      obtain ⟨-, rfl⟩ := h
      exact Or.inl ⟨ho.orderly, ho.failed, ho.closed, ho.handlers⟩
  | transfer i n =>
      simp only [step, Option.ite_none_right_eq_some, Option.map_eq_some_iff] at h
      obtain ⟨-, p, hp, rfl⟩ := h
      obtain ⟨-, hclosed, hfailed, hdelivered⟩ := WritePump.step_transfer hp
      exact Or.inl (open_of_pump ho hp hclosed hfailed hdelivered)
  | complete i =>
      simp only [step, Option.map_eq_some_iff] at h
      obtain ⟨p, hp, rfl⟩ := h
      obtain ⟨hclosed, hfailed, hdelivered, -⟩ := WritePump.step_complete hp
      exact Or.inl (open_of_pump ho hp hclosed hfailed hdelivered)
  | fail i =>
      have hclosed : s.pump.closed = true := ha
      rw [ho.closed] at hclosed
      cases hclosed

theorem done_of_pump {msgs : List SocketMsg} {s : ChatClient} {q : WritePump}
    {a : WritePump.Action} (hd : Done msgs s)
    (hstep : WritePump.step chatClientWriter s.pump a = some q) (hclosed : q.closed = true)
    (haccepted : q.accepted = s.pump.accepted) : Done msgs { s with pump := q } where
  orderly := WritePump.orderly_step hd.orderly hstep
  closed := hclosed
  accepted := haccepted.trans hd.accepted
  posted := hd.posted
  toPost := hd.toPost

/-- After the close nothing is accepted any more. -/
theorem step_of_done {msgs : List SocketMsg} {s s' : ChatClient} {a : Action} (hd : Done msgs s)
    (h : step s a = some s') : Done msgs s' := by
  cases a with
  | post => simp [step, hd.toPost] at h
  | runHandler i => simp [step, hd.posted] at h
  | connect => simp [step, hd.closed] at h
  | transfer i n =>
      simp only [step, Option.ite_none_right_eq_some, Option.map_eq_some_iff] at h
      obtain ⟨-, p, hp, rfl⟩ := h
      obtain ⟨hopen, -⟩ := WritePump.step_transfer hp
      rw [hd.closed] at hopen
      cases hopen
  | complete i =>
      simp only [step, Option.map_eq_some_iff] at h
      obtain ⟨p, hp, rfl⟩ := h
      obtain ⟨hclosed, -, -, haccepted⟩ := WritePump.step_complete hp
      exact done_of_pump hd hp (hclosed.trans hd.closed) haccepted
  | fail i =>
      simp only [step, Option.ite_none_left_eq_some, Option.map_eq_some_iff] at h
      obtain ⟨-, p, hp, rfl⟩ := h
      obtain ⟨haccepted, hclosed⟩ := WritePump.step_fail hp
      exact done_of_pump hd hp (hclosed hd.closed) haccepted

/-- The messages written for lines without NUL that fit are the frames of the
copies of these lines. -/
theorem wires_writes (fresh : ℕ → SocketMsg) (cnt : ℤ) (k : ℕ) {lines : List Bytes}
    (h : ∀ line ∈ lines, NulFree line ∧ line.length ≤ maxBodyLength) :
    WritePump.wires (writes fresh cnt k lines) =
      socketCodec.frames (lines.flatMap (List.replicate cnt.toNat)) := by
  induction lines generalizing k with
  | nil => rfl
  | cons line lines ih =>
      obtain ⟨hnul, hlen⟩ := h line List.mem_cons_self
      have hpack := (fresh k).wire_pack_of_nulFree hnul hlen []
      have hcopies : WritePump.wires (List.replicate cnt.toNat ((fresh k).pack (line ++ [0]))) =
          socketCodec.frames (List.replicate cnt.toNat line) := by
        simp [WritePump.wires, Framing.Codec.frames, List.flatMap_replicate, hpack]
      rw [writes, WritePump.wires_append, hcopies,
        ih (k + 1) fun l hl => h l (List.mem_cons_of_mem _ hl), List.flatMap_cons,
        Framing.Codec.frames_append]

theorem expected_eq {cnt : ℤ} {text : Bytes} (h : NoLineCutOff cnt text) :
    expected cnt text = (sentLines text).flatMap (List.replicate cnt.toNat) := by
  have hnone (lines : List Bytes) (hcnt : cnt ≤ 0) :
      lines.flatMap (List.replicate cnt.toNat) = [] := by
    simp [Int.toNat_of_nonpos hcnt]
  rw [expected, sentLines_eq]
  rcases h with hcnt | hcut
  · rw [hnone _ hcnt, hnone _ hcnt]
  · have hfirst : ((inputLines text).takeWhile fits).filter fits =
        (inputLines text).takeWhile fits :=
      List.filter_eq_self.mpr fun line hline => List.mem_takeWhile_imp hline
    have hrest : ((inputLines text).dropWhile fits).filter fits = [] :=
      List.filter_eq_nil_iff.mpr fun line hline => by simp [hcut line hline]
    have hsplit : (inputLines text).filter fits = (inputLines text).takeWhile fits := by
      calc (inputLines text).filter fits
          = ((inputLines text).takeWhile fits ++ (inputLines text).dropWhile fits).filter fits := by
            rw [List.takeWhile_append_dropWhile]
        _ = (inputLines text).takeWhile fits := by
            rw [List.filter_append, hfirst, hrest, List.append_nil]
    rw [hsplit]

theorem of_mem_sentLines {text line : Bytes} (htext : NulFree text)
    (hline : line ∈ sentLines text) : NulFree line ∧ line.length ≤ maxBodyLength := by
  rw [sentLines_eq] at hline
  have hfits : fits line = true := List.mem_takeWhile_imp hline
  exact ⟨nulFree_of_mem_inputLines htext ((List.takeWhile_sublist _).subset hline),
    by simpa [fits] using hfits⟩

/-- In a run in which no line is cut off and the handlers run in turn, the socket
has accepted every message that was to be sent when it is closed. -/
theorem lossless_of_meets_inTurn (fresh : ℕ → SocketMsg) {cnt : ℤ} {text : Bytes}
    {as : List Action} {s : ChatClient} (htext : NulFree text) (hlines : NoLineCutOff cnt text)
    (hok : Meets step InTurn (start fresh cnt text) as)
    (hrun : run step (start fresh cnt text) as = some s) : Lossless cnt text s := by
  have hstart : Open (writes fresh cnt 0 (sentLines text)) (start fresh cnt text) :=
    ⟨WritePump.orderly_start, rfl, rfl, rfl⟩
  have hend : Open (writes fresh cnt 0 (sentLines text)) s ∨
      Done (writes fresh cnt 0 (sentLines text)) s :=
    invariant_of_meets (I := fun s => Open (writes fresh cnt 0 (sentLines text)) s ∨
        Done (writes fresh cnt 0 (sentLines text)) s)
      (fun _ _ _ hi ha h => hi.elim (fun ho => step_of_open ho ha h)
        fun hd => Or.inr (step_of_done hd h)) (Or.inl hstart) hok hrun
  intro hclosed
  rcases hend with hopen | hdone
  · rw [hopen.closed] at hclosed
    cases hclosed
  · rw [hdone.accepted, wires_writes fresh cnt 0 fun _ => of_mem_sentLines htext,
      expected_eq hlines]

/-- Two lines, each sent twice: the handlers run while earlier messages are written, and
the socket is closed when all of them are. -/
def twoLines : List Action :=
  [.post, .post, .connect, .runHandler 0, .transfer 0 3, .runHandler 0, .transfer 0 2,
    .complete 0, .post, .post, .transfer 0 5, .runHandler 0, .complete 0, .post, .runHandler 0,
    .transfer 0 6, .complete 0, .transfer 0 6, .runHandler 0, .complete 0]

theorem lossless_two_lines :
    ∃ s, run step (start default 2 (ascii "a\nbb\n")) twoLines = some s ∧
      s.pump.closed = true ∧ Lossless 2 (ascii "a\nbb\n") s := by
  have hstart : start default 2 (ascii "a\nbb\n") =
      { pump := WritePump.start, connected := false, posted := []
        toPost := ([ascii "a", ascii "a", ascii "bb", ascii "bb"].map fun line =>
          .doWrite ((default : SocketMsg).pack (line ++ [0]))) ++ [.doClose] } := by
    rw [start, posts, sentLines_eq]
    rfl
  obtain ⟨s, hs, hclosed⟩ : ∃ s,
      run step (start default 2 (ascii "a\nbb\n")) twoLines = some s ∧ s.pump.closed = true := by
    rw [hstart]
    exact exists_of_any_run (by decide +kernel)
  have hok : Meets step InTurn (start default 2 (ascii "a\nbb\n")) twoLines := by
    rw [hstart]
    decide +kernel
  have hlines : NoLineCutOff 2 (ascii "a\nbb\n") := Or.inr (by decide)
  exact ⟨s, hs, hclosed, lossless_of_meets_inTurn default (by decide) hlines hok hs⟩

def oneLine : Bytes := ascii "a\n"

theorem posts_oneLine (fresh : ℕ → SocketMsg) :
    posts fresh 1 oneLine = [.doWrite ((fresh 0).pack (ascii "a" ++ [0])), .doClose] := by
  rw [posts, sentLines_eq]
  rfl

/-- The input ends while its only line is still being written. -/
theorem lossy_on_end_of_input :
    ¬ ∀ (fresh : ℕ → SocketMsg) (cnt : ℤ) (text : Bytes) (as : List Action) (s : ChatClient),
      NulFree text → 0 ≤ cnt → run step (start fresh cnt text) as = some s →
      Lossless cnt text s := by
  intro h
  have hrun : ∃ s, run step (start default 1 oneLine)
      [.post, .runHandler 0, .connect, .post, .runHandler 0] = some s ∧
      s.pump.closed = true ∧ s.pump.accepted = [] := by
    rw [start, posts_oneLine]
    exact ⟨_, rfl, rfl, rfl⟩
  obtain ⟨s, hrun, hclosed, haccepted⟩ := hrun
  have hall := h default 1 oneLine _ s (by decide) (by decide) hrun hclosed
  rw [haccepted] at hall
  revert hall
  decide

end ChatClient

end GafqEngine
