import GafqEngine.Kernel.Socket
import Mathlib.Logic.Function.Basic

/-!
# The descriptor table

The part of the kernel that the epoll loop works on: which connection each open
descriptor names, the epoll set, and the peers. A closed number is free again and
a later `accept` may give it out for another connection; a connection has its
identity for good. The calls that were made are recorded in order, each with the
connection that its descriptor named.
-/

namespace GafqEngine

open CLib

inductive SysCall where
  | accept (fd : Option ℤ)
  | read (fd : ℤ) (conn : Option ConnId) (count : ℕ) (result : ReadResult)
  | close (fd : ℤ) (conn : Option ConnId)

/-- The server socket, the connection each client descriptor names, the
descriptors in the epoll set, the peers, the identity of the next connection, and
the calls so far. -/
structure Kernel where
  serverSocket : ℤ
  names : ℤ → Option ConnId
  registered : ℤ → Bool
  peers : ConnId → Peer
  nextConn : ConnId
  calls : List SysCall

namespace Kernel

/-- The server socket is listening and in the epoll set. -/
def start (serverSocket : ℤ) (peers : ConnId → Peer) : Kernel where
  serverSocket := serverSocket
  names _ := none
  registered fd := fd == serverSocket
  peers := peers
  nextConn := 0
  calls := []

def IsOpen (k : Kernel) (fd : ℤ) : Prop := fd = k.serverSocket ∨ (k.names fd).isSome

instance (k : Kernel) (fd : ℤ) : Decidable (k.IsOpen fd) := inferInstanceAs (Decidable (_ ∨ _))

/-- `accept`: a failure, or a number that is not in use for a new connection. -/
def accept (k : Kernel) : Option ℤ → Option Kernel
  | none => some { k with calls := k.calls ++ [.accept none] }
  | some fd =>
      if fd < 0 ∨ k.IsOpen fd then none
      else
        some { k with
          names := Function.update k.names fd (some k.nextConn)
          nextConn := k.nextConn + 1
          calls := k.calls ++ [.accept (some fd)] }

/-- `epoll_ctl(epfd, EPOLL_CTL_ADD, fd, &event)`, which fails on a number that is
not open. -/
def epollCtlAdd (k : Kernel) (fd : ℤ) : Kernel :=
  if k.IsOpen fd then { k with registered := Function.update k.registered fd true } else k

/-- `read(fd, buf, count)`, which fails on a number that names no connection. -/
def read (k : Kernel) (fd : ℤ) (count : ℕ) (choice : ReadChoice) :
    Option (ReadResult × Kernel) :=
  match k.names fd with
  | none => some (none, { k with calls := k.calls ++ [.read fd none count none] })
  | some c =>
      ((k.peers c).read count choice).map fun r =>
        (r.1, { k with
          peers := Function.update k.peers c r.2
          calls := k.calls ++ [.read fd (some c) count r.1] })

/-- `close(fd)`, which also takes the number out of the epoll set. -/
def close (k : Kernel) (fd : ℤ) : Kernel :=
  { k with
    names := Function.update k.names fd none
    registered := Function.update k.registered fd false
    calls := k.calls ++ [.close fd (k.names fd)] }

/-- A `send` to the number raises `SIGPIPE`: it names a connection that was reset. On any
number that names no connection it fails and raises nothing, also on the server socket,
for which Linux raises `SIGPIPE` too; on a connection that is only shut down by the
client it raises nothing. -/
def raisesSigpipe (k : Kernel) (fd : ℤ) : Bool :=
  match k.names fd with
  | none => false
  | some c => (k.peers c).reset

def takenBy (k : Kernel) (fd : ℤ) : SendOutcome → Option ConnId
  | .fails => none
  | .takes n => if 0 < n ∧ k.raisesSigpipe fd = false then k.names fd else none

/-- From `k` to `k'` connections were closed, and new ones got numbers. -/
structure Later (k k' : Kernel) : Prop where
  nextConn : k.nextConn ≤ k'.nextConn
  names : ∀ fd c, k'.names fd = some c →
    k.names fd = some c ∨ (k.nextConn ≤ c ∧ c < k'.nextConn)

theorem accept_eq_some {k k' : Kernel} {accepted : Option ℤ} (h : k.accept accepted = some k') :
    (accepted = none ∧ k' = { k with calls := k.calls ++ [.accept none] }) ∨
      ∃ fd, accepted = some fd ∧ 0 ≤ fd ∧ ¬ k.IsOpen fd ∧
        k' = { k with
          names := Function.update k.names fd (some k.nextConn)
          nextConn := k.nextConn + 1
          calls := k.calls ++ [.accept (some fd)] } := by
  cases accepted with
  | none => exact Or.inl ⟨rfl, (Option.some.inj h).symm⟩
  | some fd =>
      simp only [accept, Option.ite_none_left_eq_some, not_or, not_lt, Option.some.injEq] at h
      exact Or.inr ⟨fd, rfl, h.1.1, h.1.2, h.2.symm⟩

theorem read_eq_some {k k' : Kernel} {fd : ℤ} {count : ℕ} {choice : ReadChoice} {r : ReadResult}
    (h : k.read fd count choice = some (r, k')) :
    (k.names fd = none ∧ r = none ∧
        k' = { k with calls := k.calls ++ [.read fd none count none] }) ∨
      ∃ c p, k.names fd = some c ∧ (k.peers c).read count choice = some (r, p) ∧
        k' = { k with
          peers := Function.update k.peers c p
          calls := k.calls ++ [.read fd (some c) count r] } := by
  unfold read at h
  cases hn : k.names fd with
  | none =>
      simp only [hn, Option.some.injEq, Prod.mk.injEq] at h
      exact Or.inl ⟨rfl, h.1.symm, h.2.symm⟩
  | some c =>
      simp only [hn, Option.map_eq_some_iff, Prod.mk.injEq] at h
      obtain ⟨⟨r', p⟩, hp, rfl, rfl⟩ := h
      exact Or.inr ⟨c, p, rfl, hp, rfl⟩

def afterRead (k : Kernel) (fd : ℤ) (c : ConnId) (count : ℕ) (r : ReadResult) (p : Peer) : Kernel :=
  { k with
    peers := Function.update k.peers c p
    calls := k.calls ++ [.read fd (some c) count r] }

@[simp] theorem afterRead_names (k : Kernel) (fd : ℤ) (c : ConnId) (count : ℕ) (r : ReadResult)
    (p : Peer) : (k.afterRead fd c count r p).names = k.names := rfl

@[simp] theorem afterRead_peers (k : Kernel) (fd : ℤ) (c : ConnId) (count : ℕ) (r : ReadResult)
    (p : Peer) : (k.afterRead fd c count r p).peers = Function.update k.peers c p := rfl

theorem read_of_peer {k : Kernel} {fd : ℤ} {c : ConnId} {count : ℕ} {choice : ReadChoice}
    {r : ReadResult} {p : Peer} (hn : k.names fd = some c)
    (hp : (k.peers c).read count choice = some (r, p)) :
    k.read fd count choice = some (r, k.afterRead fd c count r p) := by
  simp only [read, hn, hp, Option.map_some, afterRead]

theorem epollCtlAdd_eq (k : Kernel) (fd : ℤ) :
    ∃ registered, k.epollCtlAdd fd = { k with registered := registered } := by
  by_cases h : k.IsOpen fd
  · exact ⟨_, if_pos h⟩
  · exact ⟨k.registered, if_neg h⟩

@[simp] theorem epollCtlAdd_peers (k : Kernel) (fd : ℤ) : (k.epollCtlAdd fd).peers = k.peers := by
  obtain ⟨_, h⟩ := k.epollCtlAdd_eq fd
  rw [h]

@[simp] theorem close_peers (k : Kernel) (fd : ℤ) : (k.close fd).peers = k.peers := rfl

theorem accept_peers {k k' : Kernel} {accepted : Option ℤ} (h : k.accept accepted = some k') :
    k'.peers = k.peers := by
  rcases accept_eq_some h with ⟨-, rfl⟩ | ⟨_, -, -, -, rfl⟩
  · rfl
  · rfl

theorem read_of_none {k k' : Kernel} {fd : ℤ} {count : ℕ} {choice : ReadChoice} {r : ReadResult}
    (hn : k.names fd = none) (h : k.read fd count choice = some (r, k')) :
    r = none ∧ k'.peers = k.peers := by
  rcases read_eq_some h with ⟨-, rfl, rfl⟩ | ⟨c, p, hc, -, -⟩
  · exact ⟨rfl, rfl⟩
  · rw [hn] at hc
    cases hc

theorem read_of_some {k k' : Kernel} {fd : ℤ} {count : ℕ} {choice : ReadChoice} {r : ReadResult}
    {c : ConnId} (hn : k.names fd = some c) (h : k.read fd count choice = some (r, k')) :
    ∃ p, (k.peers c).read count choice = some (r, p) ∧
      k'.peers = Function.update k.peers c p := by
  rcases read_eq_some h with ⟨hc, -, -⟩ | ⟨c', p, hc, hp, rfl⟩
  · rw [hn] at hc
    cases hc
  · obtain rfl : c = c' := Option.some.inj (hn.symm.trans hc)
    exact ⟨p, hp, rfl⟩

/-- Only a number that names a connection gives any bytes. -/
theorem names_of_stored {k k' : Kernel} {fd : ℤ} {count : ℕ} {choice : ReadChoice}
    {r : ReadResult} (h : k.read fd count choice = some (r, k')) (hne : r.stored ≠ []) :
    ∃ c, k.names fd = some c := by
  refine Option.ne_none_iff_exists'.mp fun hn => hne ?_
  rw [(read_of_none hn h).1]
  rfl

/-- A `read` changes nothing but the stream that it reads. -/
theorem read_names {k k' : Kernel} {fd : ℤ} {count : ℕ} {choice : ReadChoice} {r : ReadResult}
    (h : k.read fd count choice = some (r, k')) : k'.names = k.names := by
  rcases read_eq_some h with ⟨-, -, rfl⟩ | ⟨c, p, -, -, rfl⟩
  · rfl
  · rfl

theorem read_stored {k k' : Kernel} {fd : ℤ} {count : ℕ} {choice : ReadChoice} {r : ReadResult}
    (h : k.read fd count choice = some (r, k')) : r.stored.length ≤ count := by
  rcases read_eq_some h with ⟨-, rfl, -⟩ | ⟨c, p, -, hp, -⟩
  · exact Nat.zero_le _
  · exact (Peer.read_eq_some hp).2.1

theorem takenBy_eq_some {k : Kernel} {fd : ℤ} {outcome : SendOutcome} {c : ConnId}
    (h : k.takenBy fd outcome = some c) : k.names fd = some c := by
  cases outcome with
  | fails => cases h
  | takes n =>
      simp only [takenBy, Option.ite_none_right_eq_some] at h
      exact h.2

theorem Later.of_names_eq {k k' : Kernel} (hnames : k'.names = k.names)
    (hnext : k'.nextConn = k.nextConn) : Later k k' :=
  ⟨hnext.ge, fun _ _ h => Or.inl (hnames ▸ h)⟩

theorem Later.trans {k k' k'' : Kernel} (h : Later k k') (h' : Later k' k'') : Later k k'' := by
  refine ⟨h.nextConn.trans h'.nextConn, fun fd c hc => ?_⟩
  rcases h'.names fd c hc with hk' | ⟨hle, hlt⟩
  · rcases h.names fd c hk' with hk | ⟨hle, hlt⟩
    · exact Or.inl hk
    · exact Or.inr ⟨hle, hlt.trans_le h'.nextConn⟩
  · exact Or.inr ⟨h.nextConn.trans hle, hlt⟩

theorem read_calls {k k' : Kernel} {fd : ℤ} {count : ℕ} {choice : ReadChoice} {r : ReadResult}
    (h : k.read fd count choice = some (r, k')) :
    k'.calls = k.calls ++ [.read fd (k.names fd) count r] := by
  rcases read_eq_some h with ⟨hn, rfl, rfl⟩ | ⟨c, p, hn, -, rfl⟩
  · rw [hn]
  · rw [hn]

theorem accept_calls {k k' : Kernel} {accepted : Option ℤ} (h : k.accept accepted = some k') :
    k'.calls = k.calls ++ [.accept accepted] := by
  rcases accept_eq_some h with ⟨rfl, rfl⟩ | ⟨fd, rfl, -, -, rfl⟩
  · rfl
  · rfl

@[simp] theorem epollCtlAdd_calls (k : Kernel) (fd : ℤ) : (k.epollCtlAdd fd).calls = k.calls := by
  obtain ⟨_, h⟩ := k.epollCtlAdd_eq fd
  rw [h]

@[simp] theorem close_calls (k : Kernel) (fd : ℤ) :
    (k.close fd).calls = k.calls ++ [.close fd (k.names fd)] := rfl

theorem later_close (k : Kernel) (fd : ℤ) : Later k (k.close fd) := by
  refine ⟨le_rfl, fun fd' c hc => Or.inl ?_⟩
  by_cases h : fd' = fd
  · simp [close, h] at hc
  · simpa [close, h] using hc

theorem later_accept {k k' : Kernel} {accepted : Option ℤ} (h : k.accept accepted = some k') :
    Later k k' := by
  rcases accept_eq_some h with ⟨-, rfl⟩ | ⟨fd, -, -, -, rfl⟩
  · exact Later.of_names_eq rfl rfl
  · refine ⟨Nat.le_succ _, fun fd' c hc => ?_⟩
    by_cases hfd : fd' = fd
    · simp only [hfd, Function.update_self, Option.some.injEq] at hc
      exact Or.inr ⟨hc.le, hc ▸ Nat.lt_succ_self _⟩
    · exact Or.inl (by simpa [hfd] using hc)

theorem later_epollCtlAdd (k : Kernel) (fd : ℤ) : Later k (k.epollCtlAdd fd) := by
  obtain ⟨_, h⟩ := k.epollCtlAdd_eq fd
  rw [h]
  exact Later.of_names_eq rfl rfl

theorem later_read {k k' : Kernel} {fd : ℤ} {count : ℕ} {choice : ReadChoice} {r : ReadResult}
    (h : k.read fd count choice = some (r, k')) : Later k k' := by
  rcases read_eq_some h with ⟨-, -, rfl⟩ | ⟨c, p, -, -, rfl⟩
  · exact Later.of_names_eq rfl rfl
  · exact Later.of_names_eq rfl rfl

end Kernel

end GafqEngine
