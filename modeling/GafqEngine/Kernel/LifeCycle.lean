import GafqEngine.Kernel.Descriptors
import Mathlib.Data.List.Nodup

/-!
# The life of a connection

A connection gets its number from `accept`, is put into the epoll set, and gives the
number back when it is closed. `Sound` ties the descriptor table to the calls that
were made: the numbers in the epoll set are the open ones, each connection has one
number at most, and one that was closed has none ever after. The three calls of the
loop keep it, as long as only numbers of connections are closed.
-/

namespace GafqEngine

def SysCall.closes : SysCall → Option ConnId
  | .close _ conn => conn
  | _ => none

@[simp] theorem SysCall.closes_accept (fd : Option ℤ) : (SysCall.accept fd).closes = none := rfl

@[simp] theorem SysCall.closes_read (fd : ℤ) (conn : Option ConnId) (count : ℕ)
    (result : ReadResult) : (SysCall.read fd conn count result).closes = none := rfl

namespace Kernel

def closed (k : Kernel) : List ConnId := k.calls.filterMap SysCall.closes

/-- The number came from `accept` for the connection, is in the epoll set, and was
not closed since. -/
structure IsClient (k : Kernel) (fd : ℤ) (c : ConnId) : Prop where
  names : k.names fd = some c
  notServer : fd ≠ k.serverSocket
  accepted : .accept (some fd) ∈ k.calls
  registered : k.registered fd = true
  notClosed : c ∉ k.closed

structure Sound (k : Kernel) : Prop where
  registered_iff : ∀ fd, k.registered fd = true ↔ k.IsOpen fd
  server : k.names k.serverSocket = none
  accepted : ∀ fd c, k.names fd = some c → .accept (some fd) ∈ k.calls ∧ c < k.nextConn
  injective : ∀ fd fd' c, k.names fd = some c → k.names fd' = some c → fd = fd'
  closed : ∀ c ∈ k.closed, c < k.nextConn ∧ ∀ fd, k.names fd ≠ some c
  closed_nodup : k.closed.Nodup
  server_open : ∀ conn, .close k.serverSocket conn ∉ k.calls

theorem closed_of_calls_eq {k k' : Kernel} {call : SysCall} (h : k'.calls = k.calls ++ [call]) :
    k'.closed = k.closed ++ call.closes.toList := by
  rw [Kernel.closed, h, List.filterMap_append, Kernel.closed]
  cases hcall : call.closes with
  | none => simp [hcall]
  | some c => simp [hcall]

theorem closed_read {k k' : Kernel} {fd : ℤ} {count : ℕ} {choice : ReadChoice} {r : ReadResult}
    (h : k.read fd count choice = some (r, k')) : k'.closed = k.closed := by
  rw [closed_of_calls_eq (read_calls h), SysCall.closes_read, Option.toList_none, List.append_nil]

theorem closed_accept {k k' : Kernel} {accepted : Option ℤ} (h : k.accept accepted = some k')
    (fd : ℤ) : (k'.epollCtlAdd fd).closed = k.closed := by
  rw [closed_of_calls_eq ((k'.epollCtlAdd_calls fd).trans (accept_calls h)),
    SysCall.closes_accept, Option.toList_none, List.append_nil]

theorem closed_close (k : Kernel) (fd : ℤ) :
    (k.close fd).closed = k.closed ++ (k.names fd).toList := by
  rw [closed_of_calls_eq (k.close_calls fd), SysCall.closes]

theorem sound_start (serverSocket : ℤ) (peers : ConnId → Peer) :
    Sound (start serverSocket peers) where
  registered_iff fd := by simp [start, IsOpen]
  server := rfl
  accepted _ _ h := nomatch h
  injective _ _ _ h := nomatch h
  closed _ h := nomatch h
  closed_nodup := List.nodup_nil
  server_open _ h := nomatch h

theorem Sound.isClient {k : Kernel} (hk : Sound k) {fd : ℤ}
    (hregistered : k.registered fd = true) (hserver : fd ≠ k.serverSocket) :
    ∃ c, k.IsClient fd c := by
  obtain ⟨c, hc⟩ : ∃ c, k.names fd = some c :=
    Option.isSome_iff_exists.mp (((hk.registered_iff fd).mp hregistered).resolve_left hserver)
  exact ⟨c, hc, hserver, (hk.accepted fd c hc).1, hregistered,
    fun hclosed => (hk.closed c hclosed).2 fd hc⟩

theorem Sound.server_open_append {k : Kernel} (hk : Sound k) {call : SysCall}
    (hcall : ∀ conn, call ≠ .close k.serverSocket conn) (conn : Option ConnId) :
    .close k.serverSocket conn ∉ k.calls ++ [call] := by
  intro h
  rcases List.mem_append.mp h with h | h
  · exact hk.server_open conn h
  · exact hcall conn (List.mem_singleton.mp h).symm

/-- A call that closes nothing, and the bytes that it takes from a peer. -/
theorem Sound.call {k : Kernel} (hk : Sound k) {call : SysCall}
    (hcall : ∀ fd conn, call ≠ .close fd conn) (peers : ConnId → Peer) :
    Sound { k with peers := peers, calls := k.calls ++ [call] } := by
  have hcloses : call.closes = none := by
    cases call with
    | accept => rfl
    | read => rfl
    | close fd conn => exact absurd rfl (hcall fd conn)
  have hclosed :
      Kernel.closed { k with peers := peers, calls := k.calls ++ [call] } = k.closed := by
    rw [closed_of_calls_eq (k := k) rfl, hcloses, Option.toList_none, List.append_nil]
  refine ⟨hk.registered_iff, hk.server, ?_, hk.injective, ?_, ?_,
    hk.server_open_append fun conn => hcall _ conn⟩
  · intro fd c hc
    exact ⟨List.mem_append_left _ (hk.accepted fd c hc).1, (hk.accepted fd c hc).2⟩
  · rw [hclosed]
    exact hk.closed
  · rw [hclosed]
    exact hk.closed_nodup

theorem sound_read {k k' : Kernel} (hk : Sound k) {fd : ℤ} {count : ℕ} {choice : ReadChoice}
    {r : ReadResult} (h : k.read fd count choice = some (r, k')) : Sound k' := by
  rcases read_eq_some h with ⟨-, -, rfl⟩ | ⟨c, p, -, -, rfl⟩
  · exact hk.call (by simp) k.peers
  · exact hk.call (by simp) _

/-- An open number is in the epoll set already. -/
theorem sound_epollCtlAdd {k : Kernel} (hk : Sound k) (fd : ℤ) : Sound (k.epollCtlAdd fd) := by
  by_cases hopen : k.IsOpen fd
  · have hsame : Function.update k.registered fd true = k.registered :=
      Function.update_eq_self_iff.mpr ((hk.registered_iff fd).mpr hopen).symm
    rw [epollCtlAdd, if_pos hopen, hsame]
    exact hk
  · rw [epollCtlAdd, if_neg hopen]
    exact hk

/-- A new connection, and the `epoll_ctl` for its number. -/
theorem sound_accepted {k : Kernel} (hk : Sound k) {fd : ℤ} (hfree : ¬ k.IsOpen fd) :
    Sound { k with
      names := Function.update k.names fd (some k.nextConn)
      registered := Function.update k.registered fd true
      nextConn := k.nextConn + 1
      calls := k.calls ++ [.accept (some fd)] } := by
  have hserver : k.serverSocket ≠ fd := fun h => hfree (Or.inl h.symm)
  have hnew : ∀ fd' c, Function.update k.names fd (some k.nextConn) fd' = some c →
      (fd' = fd ∧ c = k.nextConn) ∨ k.names fd' = some c := by
    intro fd' c hc
    by_cases hfd : fd' = fd
    · rw [hfd, Function.update_self] at hc
      exact Or.inl ⟨hfd, (Option.some.inj hc).symm⟩
    · rw [Function.update_of_ne hfd] at hc
      exact Or.inr hc
  have hold : ∀ fd' c, k.names fd' = some c → c ≠ k.nextConn := fun fd' c hc =>
    ((hk.accepted fd' c hc).2).ne
  refine ⟨?_, ?_, ?_, ?_, ?_, ?_, hk.server_open_append fun _ => nofun⟩
  · intro fd'
    by_cases hfd : fd' = fd
    · simp [hfd, IsOpen]
    · simpa [hfd, IsOpen] using hk.registered_iff fd'
  · simpa [hserver] using hk.server
  · intro fd' c hc
    rcases hnew fd' c hc with ⟨rfl, rfl⟩ | hc
    · exact ⟨List.mem_append_right _ List.mem_cons_self, Nat.lt_succ_self _⟩
    · obtain ⟨haccept, hlt⟩ := hk.accepted fd' c hc
      exact ⟨List.mem_append_left _ haccept, hlt.trans (Nat.lt_succ_self _)⟩
  · intro fd₁ fd₂ c h₁ h₂
    rcases hnew fd₁ c h₁ with ⟨rfl, rfl⟩ | h₁
    · rcases hnew fd₂ _ h₂ with ⟨rfl, -⟩ | h₂
      · rfl
      · exact absurd rfl (hold fd₂ _ h₂)
    · rcases hnew fd₂ c h₂ with ⟨-, rfl⟩ | h₂
      · exact absurd rfl (hold fd₁ _ h₁)
      · exact hk.injective fd₁ fd₂ c h₁ h₂
  · rw [closed_of_calls_eq (k := k) rfl, SysCall.closes_accept, Option.toList_none, List.append_nil]
    intro c hc
    obtain ⟨hlt, hnames⟩ := hk.closed c hc
    refine ⟨hlt.trans (Nat.lt_succ_self _), fun fd' hfd' => ?_⟩
    rcases hnew fd' c hfd' with ⟨-, rfl⟩ | hfd'
    · exact absurd hlt (Nat.lt_irrefl _)
    · exact hnames fd' hfd'
  · rw [closed_of_calls_eq (k := k) rfl, SysCall.closes_accept, Option.toList_none, List.append_nil]
    exact hk.closed_nodup

/-- `accept`, whether it fails or not, and the `epoll_ctl` behind it. -/
theorem sound_accept {k k' : Kernel} (hk : Sound k) {accepted : Option ℤ}
    (h : k.accept accepted = some k') : Sound (k'.epollCtlAdd (accepted.getD (-1))) := by
  rcases accept_eq_some h with ⟨rfl, rfl⟩ | ⟨fd, rfl, -, hfree, rfl⟩
  · exact sound_epollCtlAdd (hk.call (by simp) k.peers) _
  · have hopen : IsOpen { k with
        names := Function.update k.names fd (some k.nextConn)
        nextConn := k.nextConn + 1
        calls := k.calls ++ [.accept (some fd)] } fd := Or.inr (by simp)
    rw [Option.getD_some, epollCtlAdd, if_pos hopen]
    exact sound_accepted hk hfree

theorem sound_close {k : Kernel} (hk : Sound k) {fd : ℤ} {c : ConnId} (hc : k.names fd = some c) :
    Sound (k.close fd) := by
  have hserver : fd ≠ k.serverSocket := by
    rintro rfl
    rw [hk.server] at hc
    cases hc
  have hclosed : (k.close fd).closed = k.closed ++ [c] := by
    rw [closed_close, hc, Option.toList_some]
  have hleft : ∀ fd' c', (k.close fd).names fd' = some c' → fd' ≠ fd ∧ k.names fd' = some c' := by
    intro fd' c' h
    by_cases hfd : fd' = fd
    · simp [close, hfd] at h
    · exact ⟨hfd, by simpa [close, hfd] using h⟩
  refine ⟨?_, ?_, ?_, ?_, ?_, ?_, hk.server_open_append fun conn h => ?_⟩
  · intro fd'
    by_cases hfd : fd' = fd
    · simp [close, hfd, IsOpen, hserver]
    · simpa [close, hfd, IsOpen] using hk.registered_iff fd'
  · simpa [close, hserver.symm] using hk.server
  · intro fd' c' h
    obtain ⟨haccept, hlt⟩ := hk.accepted fd' c' (hleft fd' c' h).2
    exact ⟨List.mem_append_left _ haccept, hlt⟩
  · intro fd₁ fd₂ c' h₁ h₂
    exact hk.injective fd₁ fd₂ c' (hleft fd₁ c' h₁).2 (hleft fd₂ c' h₂).2
  · rw [hclosed]
    intro c' hc'
    rcases List.mem_append.mp hc' with hc' | hc'
    · obtain ⟨hlt, hnames⟩ := hk.closed c' hc'
      exact ⟨hlt, fun fd' h => hnames fd' (hleft fd' c' h).2⟩
    · rw [List.mem_singleton.mp hc']
      refine ⟨(hk.accepted fd c hc).2, fun fd' h => ?_⟩
      obtain ⟨hne, hfd'⟩ := hleft fd' c h
      exact hne (hk.injective fd' fd c hfd' hc)
  · rw [hclosed, List.nodup_append]
    refine ⟨hk.closed_nodup, List.nodup_singleton c, ?_⟩
    intro c₁ h₁ c₂ h₂
    rw [List.mem_singleton.mp h₂]
    rintro rfl
    exact (hk.closed c₁ h₁).2 fd hc
  · obtain ⟨hfd, -⟩ := SysCall.close.inj h
    exact hserver hfd

theorem read_registered {k k' : Kernel} {fd : ℤ} {count : ℕ} {choice : ReadChoice}
    {r : ReadResult} (h : k.read fd count choice = some (r, k')) :
    k'.registered = k.registered := by
  rcases read_eq_some h with ⟨-, -, rfl⟩ | ⟨c, p, -, -, rfl⟩
  · rfl
  · rfl

theorem registered_close (k : Kernel) {fd fd' : ℤ} (h : fd' ≠ fd) :
    (k.close fd).registered fd' = k.registered fd' := Function.update_of_ne h _ _

theorem registered_epollCtlAdd {k : Kernel} {fd' : ℤ} (h : k.registered fd' = true) (fd : ℤ) :
    (k.epollCtlAdd fd).registered fd' = true := by
  unfold epollCtlAdd
  split
  · by_cases hfd : fd' = fd
    · simp [hfd]
    · simpa [hfd] using h
  · exact h

theorem accept_registered {k k' : Kernel} {accepted : Option ℤ}
    (h : k.accept accepted = some k') : k'.registered = k.registered := by
  rcases accept_eq_some h with ⟨-, rfl⟩ | ⟨_, -, -, -, rfl⟩
  · rfl
  · rfl

end Kernel

end GafqEngine
