import GafqEngine.Gafq.Value
import GafqEngine.Transition.Run

/-!
# The script engine

`ExecGafq` wraps its arguments into a `gafqItem` and appends it to
`wait_execute_list`. `LoopExecute` copies that list, clears it, and works the
copy off item by item: it looks up the global that the message names and calls
it with the descriptor and the data of the message.

The engine is a transition system with one action for each section that runs
under the mutex and one for each item that is worked off. The answers of the
gafq state, the value of the global and the outcome of the call, are chosen by
the action. Besides the fields of the code the state records the items in the
order of their `push_back`, what the current `LoopExecute` found when it took
the lock, and for each item worked off the calls that were made for it.
-/

namespace GafqEngine

open CLib Gafq

structure ScriptEngineMsgBase where
  action : Bytes
  data : Bytes
  deriving DecidableEq

/-- The struct `gafqItem`; a null `msg` is `none`. -/
structure GafqItem where
  gafqContent : Bytes
  fd : ℤ
  msg : Option ScriptEngineMsgBase
  errinfo : Bytes
  deriving DecidableEq

/-- The arguments of `ExecGafq`, with the defaults of its declaration. -/
structure ExecArgs where
  gafqContent : Bytes := []
  fd : ℤ := -1
  msg : Option ScriptEngineMsgBase := none
  status : ℤ := 1
  errinfo : Bytes := []
  deriving DecidableEq

def ExecArgs.item (args : ExecArgs) : GafqItem :=
  if args.gafqContent ≠ [] then
    { gafqContent := args.gafqContent, fd := args.fd, msg := none, errinfo := [] }
  else
    { gafqContent := [], fd := args.fd, msg := args.msg, errinfo := args.errinfo }

/-- The copy that `LoopExecute` works off. Both loops count in `int`: `n` items
are copied, and `tn` of the copies are handled. -/
def copyBatch {α : Type*} (waitExecuteList : List α) : List α :=
  let n := castInt waitExecuteList.length
  let tempExecuteList := waitExecuteList.take n.toNat
  let tn := castInt tempExecuteList.length
  tempExecuteList.take tn.toNat

theorem copyBatch_eq_take {α : Type*} (xs : List α) :
    copyBatch xs = xs.take (castInt xs.length).toNat := by
  have hlt := toNat_castInt_lt (xs.length : ℤ)
  have hcast : (castInt ((xs.take (castInt xs.length).toNat).length : ℤ)).toNat =
      (xs.take (castInt xs.length).toNat).length := by
    rw [toNat_castInt_natCast_eq_iff, List.length_take]
    omega
  simp only [copyBatch]
  rw [hcast, List.take_length]

/-- The copy is the whole list exactly when its length fits into `int`. -/
theorem length_copyBatch_eq_iff {α : Type*} (xs : List α) :
    (copyBatch xs).length = xs.length ↔ xs.length < 2 ^ 31 := by
  have hlt := toNat_castInt_lt (xs.length : ℤ)
  rw [copyBatch_eq_take, List.length_take, ← toNat_castInt_natCast_eq_iff]
  constructor
  · intro h
    rw [toNat_castInt_natCast_eq_iff]
    omega
  · intro h
    omega

theorem length_copyBatch_le {α : Type*} (xs : List α) :
    (copyBatch xs).length ≤ xs.length := by
  rw [copyBatch_eq_take, List.length_take]
  omega

theorem copyBatch_of_lt {α : Type*} {xs : List α} (h : xs.length < 2 ^ 31) :
    copyBatch xs = xs := by
  rw [copyBatch_eq_take, (toNat_castInt_natCast_eq_iff xs.length).mpr h, List.take_length]

theorem mem_of_mem_copyBatch {α : Type*} {x : α} {xs : List α} (h : x ∈ copyBatch xs) :
    x ∈ xs := by
  rw [copyBatch_eq_take] at h
  exact List.mem_of_mem_take h

/-- How a protected call ends. -/
inductive CallResult where
  | returns
  | raises (err : Value)

inductive ApiCall where
  | dostring (content : Bytes)
  | getglobal (name : Bytes) (value : Value)
  | pcall (f : Value) (args : List Value) (result : CallResult)

def top (stack : List Value) : Value := stack.headD .nil

/-- `gafq_pcall(L, nargs, 0, 0)`: the function and its arguments are popped, and
an error value is pushed if there is one. The result is the status. -/
def pcall (stack : List Value) (nargs : ℕ) (result : CallResult) : ℕ × List Value :=
  let rest := stack.drop (nargs + 1)
  match result with
  | .returns => (0, rest)
  | .raises err => (2, err :: rest)

/-- The stack after one item of the loop of `LoopExecute`, where `global` is the
value the action names and `result` the outcome of calling it. A number that is left is
kept as it is here; `gafq_tostring` makes a string of it in its slot. -/
def runItem (stack : List Value) (fd : ℤ) (msg : ScriptEngineMsgBase) (global : Value)
    (result : CallResult) : List Value :=
  let stack := global :: stack
  if (top stack).isFunction then
    let stack := .number (.finite fd) :: stack
    let stack := .string (cstr msg.data) :: stack
    let (status, stack) := pcall stack 2 result
    if status ≠ 0 then
      if !(top stack).isNil then stack.drop 1 else stack
    else stack
  else stack

def apiCalls (fd : ℤ) (msg : ScriptEngineMsgBase) (global : Value) (result : CallResult) :
    List ApiCall :=
  if global.isFunction then
    [.getglobal (cstr msg.action) global,
      .pcall global [.number (.finite fd), .string (cstr msg.data)] result]
  else [.getglobal (cstr msg.action) global]

/-- The engine: `wait_execute_list`, the rest of `temp_execute_list`, the gafq
stack, and whether a null `msg` was dereferenced; then the history. -/
structure Engine where
  waitExecuteList : List GafqItem
  tempExecuteList : List GafqItem
  stack : List Value
  crashed : Bool
  pushed : List GafqItem
  snapshot : List GafqItem
  handled : List GafqItem
  done : List (GafqItem × List ApiCall)

namespace Engine

/-- The engine before the first call, with the stack that `Init` left. -/
def start (stack : List Value) : Engine where
  waitExecuteList := []
  tempExecuteList := []
  stack := stack
  crashed := false
  pushed := []
  snapshot := []
  handled := []
  done := []

/-- A call of `ExecGafq` by some thread, the locked section of `LoopExecute`, or
one item of its loop with the answers of the gafq state. -/
inductive Action where
  | execGafq (thread : ℕ) (args : ExecArgs)
  | takeLock
  | runItem (global : Value) (result : CallResult)

def execGafq (e : Engine) (args : ExecArgs) : Engine :=
  { e with
    waitExecuteList := e.waitExecuteList ++ [args.item]
    pushed := e.pushed ++ [args.item] }

def takeLock (e : Engine) : Engine :=
  { e with
    waitExecuteList := []
    tempExecuteList := copyBatch e.waitExecuteList
    snapshot := e.waitExecuteList
    handled := [] }

def finishItem (e : Engine) (item : GafqItem) (rest : List GafqItem)
    (msg : ScriptEngineMsgBase) (global : Value) (result : CallResult) : Engine :=
  { e with
    tempExecuteList := rest
    stack := GafqEngine.runItem e.stack item.fd msg global result
    handled := e.handled ++ [item]
    done := e.done ++ [(item, apiCalls item.fd msg global result)] }

/-- One step of the engine. Nothing happens after a crash, and `LoopExecute`
takes the lock again only when it has worked off its copy. -/
def step (e : Engine) (a : Action) : Option Engine :=
  if e.crashed then none
  else
    match a with
    | .execGafq _ args => some (e.execGafq args)
    | .takeLock => if e.tempExecuteList.isEmpty then some e.takeLock else none
    | .runItem global result =>
        match e.tempExecuteList with
        | [] => none
        | item :: rest =>
            match item.msg with
            | none => some { e with crashed := true }
            | some msg => some (e.finishItem item rest msg global result)

/-- What a step of the engine can be. -/
theorem step_cases {e e' : Engine} {a : Action} (h : e.step a = some e') :
    e.crashed = false ∧
      ((∃ thread args, a = .execGafq thread args ∧ e' = e.execGafq args) ∨
        (a = .takeLock ∧ e.tempExecuteList = [] ∧ e' = e.takeLock) ∨
        ∃ global result item rest, a = .runItem global result ∧
          e.tempExecuteList = item :: rest ∧
          ((item.msg = none ∧ e' = { e with crashed := true }) ∨
            ∃ msg, item.msg = some msg ∧ e' = e.finishItem item rest msg global result)) := by
  unfold step at h
  split at h
  · cases h
  rename_i hcrash
  refine ⟨by simpa using hcrash, ?_⟩
  cases a with
  | execGafq thread args =>
      exact Or.inl ⟨thread, args, rfl, (Option.some.inj h).symm⟩
  | takeLock =>
      simp only [Option.ite_none_right_eq_some, List.isEmpty_iff, Option.some.injEq] at h
      exact Or.inr (Or.inl ⟨rfl, h.1, h.2.symm⟩)
  | runItem global result =>
      refine Or.inr (Or.inr ?_)
      cases htemp : e.tempExecuteList with
      | nil => simp [htemp] at h
      | cons item rest =>
          refine ⟨global, result, item, rest, rfl, rfl, ?_⟩
          cases hmsg : item.msg with
          | none =>
              simp only [htemp, hmsg, Option.some.injEq] at h
              exact Or.inl ⟨rfl, h.symm⟩
          | some msg =>
              simp only [htemp, hmsg, Option.some.injEq] at h
              exact Or.inr ⟨msg, rfl, h.symm⟩

/-- What holds of every queued item holds after a step, if it holds of the item
that the step pushes. -/
theorem queued_step {P : GafqItem → Prop} {e e' : Engine} {a : Action}
    (hq : ∀ item ∈ e.tempExecuteList ++ e.waitExecuteList, P item)
    (hpush : ∀ thread args, a = .execGafq thread args → P args.item)
    (h : e.step a = some e') :
    ∀ item ∈ e'.tempExecuteList ++ e'.waitExecuteList, P item := by
  intro item hitem
  rcases step_cases h with
      ⟨-, ⟨thread, args, ha, rfl⟩ | ⟨-, -, rfl⟩ |
      ⟨global, result, front, rest, -, htemp, ⟨-, rfl⟩ | ⟨msg, -, rfl⟩⟩⟩
  · simp only [execGafq, List.mem_append, List.mem_singleton] at hitem
    rcases hitem with hitem | hitem | rfl
    · exact hq item (List.mem_append_left _ hitem)
    · exact hq item (List.mem_append_right _ hitem)
    · exact hpush thread args ha
  · simp only [takeLock, List.append_nil] at hitem
    exact hq item (List.mem_append_right _ (mem_of_mem_copyBatch hitem))
  · exact hq item hitem
  · refine hq item ?_
    rw [htemp]
    exact List.mem_cons_of_mem front hitem

/-- Two threads queue two messages for one batch and a third while it is worked off. -/
def threeMessages : List Action :=
  [.execGafq 0 { fd := 5, msg := some ⟨ascii "a", ascii "d"⟩ },
    .execGafq 1 { fd := 6, msg := some ⟨ascii "b", []⟩ }, .takeLock,
    .runItem (.function (.cfunction [])) (.raises (.string [])),
    .execGafq 0 { fd := 7, msg := some ⟨ascii "a", ascii "e"⟩ },
    .runItem (.function (.cfunction [])) .returns, .takeLock,
    .runItem (.function (.cfunction [])) .returns]

end Engine

end GafqEngine
