import GafqEngine.EpollLoop.Inbound

/-!
# The bounds of the read buffer

The body is read into `maxBodyLength` bytes behind the header and then taken as a C
string. `delete_msg` has zeroed them, so the string ends inside the buffer unless the
read fills it, and the read asks for one byte more than the header announces. Both
bounds are lost at the top of the admitted lengths only: with a header that announces
`maxBodyLength` bytes the read may store one byte too many, and with one less it may
take the last zero (`LeavesRoom`).
-/

namespace GafqEngine

open CLib SocketMsg Transition

def SysCall.requested : SysCall → ℕ
  | .read _ _ count _ => count
  | _ => 0

def Kernel.RequestsFit (k : Kernel) : Prop := ∀ call ∈ k.calls, call.requested ≤ maxBodyLength

theorem Kernel.requestsFit_of_calls_eq {k k' : Kernel} {call : SysCall}
    (h : k'.calls = k.calls ++ [call]) :
    k'.RequestsFit ↔ k.RequestsFit ∧ call.requested ≤ maxBodyLength := by
  rw [RequestsFit, h, List.forall_mem_append, List.forall_mem_singleton, RequestsFit]

theorem Kernel.requestsFit_read_iff {k k' : Kernel} {fd : ℤ} {count : ℕ} {choice : ReadChoice}
    {r : ReadResult} (h : k.read fd count choice = some (r, k')) :
    k'.RequestsFit ↔ k.RequestsFit ∧ count ≤ maxBodyLength :=
  requestsFit_of_calls_eq (read_calls h)

theorem Kernel.requestsFit_accept_iff {k k' : Kernel} {accepted : Option ℤ}
    (h : k.accept accepted = some k') (fd : ℤ) :
    (k'.epollCtlAdd fd).RequestsFit ↔ k.RequestsFit :=
  (requestsFit_of_calls_eq ((k'.epollCtlAdd_calls fd).trans (accept_calls h))).trans
    (and_iff_left (Nat.zero_le _))

theorem Kernel.requestsFit_close_iff (k : Kernel) (fd : ℤ) :
    (k.close fd).RequestsFit ↔ k.RequestsFit :=
  (requestsFit_of_calls_eq (k.close_calls fd)).trans (and_iff_left (Nat.zero_le _))

namespace Epoll

/-- No read asked for more than the buffer holds, and what is read back from it, the
text of a message and the line of the log, ends inside of it. -/
structure Inside (s : Epoll) : Prop where
  requests : s.kernel.RequestsFit
  text : s.delivered ≠ [] → ¬ NulFree s.readMsg.body
  log : s.delivered ≠ [] → ¬ NulFree s.readMsg.data

/-- A header that is accepted announces less than the buffer holds, and a body that
fills the buffer has a NUL in it. -/
def LeavesRoom : Epoll → Action → Prop :=
  Receiving fun _ n body => n < maxBodyLength ∧ (body.length < maxBodyLength ∨ ¬ NulFree body)

theorem not_nulFree_replicate : ¬ NulFree (List.replicate maxBodyLength (0 : UInt8)) :=
  not_not.mpr (List.mem_replicate.mpr ⟨by decide, rfl⟩)

/-- The zeros that a read into the cleared buffer leaves. -/
theorem not_nulFree_overwrite_iff {bytes : Bytes} (h : bytes.length ≤ maxBodyLength) :
    ¬ NulFree (overwrite (List.replicate maxBodyLength 0) 0 bytes) ↔
      bytes.length < maxBodyLength ∨ ¬ NulFree bytes := by
  rw [overwrite_replicate _ _ _ h, NulFree, NulFree, not_not, not_not, List.mem_append,
    List.mem_replicate, or_comm]
  apply or_congr_left
  rw [and_iff_left rfl, Nat.sub_ne_zero_iff_lt]

theorem not_nulFree_data {m : SocketMsg} (h : ¬ NulFree m.body) : ¬ NulFree m.data :=
  not_not.mpr (List.mem_of_mem_drop (not_not.mp h))

theorem inside_of_text {s : Epoll} (hrequests : s.kernel.RequestsFit)
    (htext : ¬ NulFree s.readMsg.body) : Inside s :=
  ⟨hrequests, fun _ => htext, fun _ => not_nulFree_data htext⟩

theorem inside_start (serverSocket : ℤ) (peers : ConnId → Peer) (readMsg : SocketMsg) :
    Inside (start serverSocket peers readMsg) :=
  ⟨List.forall_mem_nil _, fun h => absurd rfl h, fun h => absurd rfl h⟩

/-- A step that receives no message stays inside. -/
theorem inside_of_quiet {s s' : Epoll} {a : Action} (hs : Inside s) (h : Advances s a s' none) :
    Inside s' := by
  cases h with
  | epollWait => exact ⟨hs.requests, hs.text, hs.log⟩
  | epollWaitFails => exact ⟨hs.requests, hs.text, hs.log⟩
  | accept _ _ haccept =>
      exact ⟨(Kernel.requestsFit_accept_iff haccept _).mpr hs.requests, hs.text, hs.log⟩
  | reject _ _ _ hheader _ hm =>
      refine inside_of_text ?_ (hm ▸ not_nulFree_replicate)
      rw [Kernel.requestsFit_close_iff, Kernel.requestsFit_read_iff hheader]
      exact ⟨hs.requests, by decide⟩
  | hangUp => exact ⟨(Kernel.requestsFit_close_iff _ _).mpr hs.requests, hs.text, hs.log⟩
  | ignore => exact ⟨hs.requests, hs.text, hs.log⟩

/-- A step that receives a message stays inside exactly when it leaves room. -/
theorem inside_receive_iff {s s' : Epoll} {a : Action} {d : Delivery} (hs : Inside s)
    (h : Advances s a s' (some d)) : Inside s' ↔ LeavesRoom s a := by
  cases h with
  | receive hbatch hclient hin hheader hne hparse hbody hm =>
      have hreceives := Receives.intro hbatch hclient hin hheader hne hparse hbody
      have hlen := Kernel.read_stored hbody
      have hheaderFits := (Kernel.requestsFit_read_iff hheader).mpr ⟨hs.requests, by decide⟩
      rw [LeavesRoom, hreceives.receiving_iff]
      constructor
      · intro hi
        have hlt := ((Kernel.requestsFit_read_iff hbody).mp hi.requests).2
        have htext := hi.text (List.append_ne_nil_of_right_ne_nil _ (List.cons_ne_nil _ _))
        rw [hm, not_nulFree_overwrite_iff (hlen.trans hlt)] at htext
        exact ⟨hlt, htext⟩
      · rintro ⟨hlt, hnul⟩
        refine inside_of_text ((Kernel.requestsFit_read_iff hbody).mpr ⟨hheaderFits, hlt⟩) ?_
        rw [hm, not_nulFree_overwrite_iff (hlen.trans hlt)]
        exact hnul

theorem inside_step_iff {s s' : Epoll} {a : Action} (hs : Inside s) (h : s.step a = some s') :
    Inside s' ↔ LeavesRoom s a := by
  obtain ⟨out, hadv⟩ := advances_of_step h
  cases out with
  | none => exact iff_of_true (inside_of_quiet hs hadv) (receiving_of_advances hadv _)
  | some d => exact inside_receive_iff hs hadv

/-- A run stays inside the buffer exactly when every message that it receives leaves
room there. -/
theorem throughout_inside_iff_meets_leavesRoom (serverSocket : ℤ) (peers : ConnId → Peer)
    (readMsg : SocketMsg) {as : List Action} {s : Epoll}
    (hrun : run step (start serverSocket peers readMsg) as = some s) :
    Throughout step Inside (start serverSocket peers readMsg) as ↔
      Meets step LeavesRoom (start serverSocket peers readMsg) as :=
  throughout_iff_meets (fun _ _ _ hs h => inside_step_iff hs h)
    (inside_start serverSocket peers readMsg) hrun

theorem throughout_inside_iff_two_clients :
    Throughout step Inside (start 3 (peersOf twoTexts) default) twoClients ↔
      Meets step LeavesRoom (start 3 (peersOf twoTexts) default) twoClients := by
  have hrun : (run step (start 3 (peersOf twoTexts) default) twoClients).isSome := by
    decide +kernel
  obtain ⟨s, hs⟩ := Option.isSome_iff_exists.mp hrun
  exact throughout_inside_iff_meets_leavesRoom 3 _ default hs

/-- A header that announces a full body: one byte too many is asked for. -/
theorem not_inside_on_full_body :
    ¬ ∀ (serverSocket : ℤ) (peers : ConnId → Peer) (readMsg : SocketMsg) (as : List Action)
        (s : Epoll), run step (start serverSocket peers readMsg) as = some s → Inside s := by
  intro h
  obtain ⟨s, hrun, -, hcalls⟩ := run_one_message
    (fun _ => { unread := ascii "1024a", eof := false, reset := false }) default
    { header := .upTo 4, body := .upTo 1 } 1024 rfl (by decide) (by decide) rfl
  have hfit := (h _ _ _ _ _ hrun).requests
  rw [Kernel.RequestsFit, hcalls] at hfit
  have hle := hfit _ (List.mem_cons_of_mem _ (List.mem_cons_of_mem _ List.mem_cons_self))
  revert hle
  decide

end Epoll

end GafqEngine
