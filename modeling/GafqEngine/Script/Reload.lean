import GafqEngine.Script.Host

/-!
# Reloading the script

`update_self` runs the file again while the server works, and each request may find
another version of it. The file defines its functions one by one, and nothing takes
back those that stand before an error: a version that does not compile changes
nothing, one that raises leaves the functions that it defined until then beside the
old ones, and one without an error replaces all that it defines. In each case the
error ends with the call, and the messages behind it are served.
-/

namespace GafqEngine

open CLib Gafq Transition Script

def ScriptFile.Fails : ScriptFile → Prop
  | .chunk statements => ∃ err, .raise err ∈ statements
  | .malformed _ => True

/-- From `s` to `s'` a reload found the version: what it leaves of the globals when it
does not compile, when it raises an error behind the definitions of `fns`, and when it
has no error. -/
structure ReloadedFrom (file : ScriptFile) (s s' : ScriptState) : Prop where
  malformed : ∀ err, file = .malformed err → s'.globals = s.globals
  raising : ∀ (fns : List ScriptFunction) err rest,
    file = .chunk (fns.map .define ++ .raise err :: rest) →
    (∀ fn ∈ fns, s'.globals (ascii fn.name) = .function (.script s.loads (ascii fn.name))) ∧
      ∀ name, (∀ fn ∈ fns, name ≠ ascii fn.name) → s'.globals name = s.globals name
  whole : ∀ fns : List ScriptFunction, file = .chunk (fns.map .define) →
    ∀ fn ∈ fns, s'.globals (ascii fn.name) = .function (.script s.loads (ascii fn.name))

namespace Script

theorem defined_map_define (fns : List ScriptFunction) (rest : List Statement) :
    Statement.defined (fns.map .define ++ rest) = fns ++ Statement.defined rest := by
  induction fns with
  | nil => rfl
  | cons fn fns ih =>
      rw [List.map_cons, List.cons_append, Statement.defined, ih, List.cons_append]

theorem defineAll_of_mem (load : ℕ) {fns : List ScriptFunction} {fn : ScriptFunction}
    (h : fn ∈ fns) (globals : Bytes → Value) :
    defineAll load fns globals (ascii fn.name) = .function (.script load (ascii fn.name)) :=
  if_pos (List.mem_map_of_mem h)

theorem defineAll_of_ne (load : ℕ) {fns : List ScriptFunction} {name : Bytes}
    (h : ∀ fn ∈ fns, name ≠ ascii fn.name) (globals : Bytes → Value) :
    defineAll load fns globals name = globals name := by
  refine if_neg fun hmem => ?_
  obtain ⟨fn, hfn, hname⟩ := List.mem_map.mp hmem
  exact h fn hfn hname.symm

theorem reloadedFrom_of_globals {file : ScriptFile} {s s' : ScriptState}
    (h : s'.globals = defineAll s.loads (definedBy file) s.globals) :
    ReloadedFrom file s s' := by
  constructor
  · intro err hfile
    rw [h, hfile, definedBy, defineAll_nil]
  · intro fns err rest hfile
    rw [hfile, definedBy, defined_map_define, Statement.defined, List.append_nil] at h
    rw [h]
    exact ⟨fun fn hfn => defineAll_of_mem _ hfn _, fun name hname => defineAll_of_ne _ hname _⟩
  · intro fns hfile fn hfn
    have hdefined := defined_map_define fns []
    rw [List.append_nil, Statement.defined, List.append_nil] at hdefined
    rw [h, hfile, definedBy, hdefined]
    exact defineAll_of_mem _ hfn _

end Script

namespace Host

def ForStartAction (item : GafqItem) : Prop :=
  ∃ data, item.msg = some { action := ascii "start_action", data := data }

def requested (env : Env) (item : GafqItem) : List SendCall :=
  match item.msg with
  | some msg => (request env (cstr msg.data)).toList
  | none => []

/-- An item is worked off, with the file that is found at that time. -/
def runItemWith (env : Env) (h : Host) (x : ScriptFile × GafqItem) : Option Host :=
  runItem env { h with script := { h.script with file := x.1 } } x.2

theorem runItemWith_message (env : Env) (file : ScriptFile) {h : Host} {item : GafqItem}
    {data : Bytes} (hs : Ready h.script)
    (hmsg : item.msg = some { action := ascii "start_action", data := data }) :
    ∃ h', runItemWith env h (file, item) = some h' ∧
      Leaves env (cstr data) { h.script with file := file } h'.script :=
  runItem_message env (h := { h with script := { h.script with file := file } })
    ⟨hs.script, hs.registered⟩ hmsg

/-- Whatever the versions are, every message is served. -/
theorem run_runItemWith (env : Env) {h : Host} {xs : List (ScriptFile × GafqItem)}
    (hs : Ready h.script) (hxs : ∀ x ∈ xs, ForStartAction x.2) :
    ∃ h', run (runItemWith env) h xs = some h' ∧ Ready h'.script ∧
      h'.script.sends = h.script.sends ++ xs.flatMap fun x => requested env x.2 := by
  induction xs generalizing h with
  | nil => exact ⟨h, rfl, hs, (List.append_nil _).symm⟩
  | cons x xs ih =>
      obtain ⟨data, hmsg⟩ := hxs x List.mem_cons_self
      obtain ⟨h₁, hrun, hready, hsends, -⟩ := runItemWith_message env x.1 hs hmsg
      obtain ⟨h', hrun', hready', hsends'⟩ :=
        ih hready fun y hy => hxs y (List.mem_cons_of_mem x hy)
      refine ⟨h', by rw [run_cons, hrun, Option.bind_some, hrun'], hready', ?_⟩
      rw [hsends', hsends, List.flatMap_cons, requested, hmsg, List.append_assoc]

/-- In any sequence of messages, with any version of the file at each of them: a request
to reload leaves the globals as the version that it finds has it, and the messages
behind it are served. -/
theorem reloadedFrom_of_request (env : Env) (library : Bytes → Value) (stack : List Value)
    {before after : List (ScriptFile × GafqItem)} {file : ScriptFile} {item : GafqItem}
    {data : Bytes} (hbefore : ∀ x ∈ before, ForStartAction x.2)
    (hafter : ∀ x ∈ after, ForStartAction x.2)
    (hmsg : item.msg = some { action := ascii "start_action", data := data })
    (hask : asksToReload env (cstr data) = true) :
    ∃ h h' h'', run (runItemWith env) (start library stack) before = some h ∧
      runItemWith env h (file, item) = some h' ∧ ReloadedFrom file h.script h'.script ∧
      run (runItemWith env) h' after = some h'' ∧
      h''.script.sends = h'.script.sends ++ after.flatMap fun x => requested env x.2 := by
  obtain ⟨h, hrun, hready, -⟩ := run_runItemWith env (ready_start library stack) hbefore
  obtain ⟨h', hitem, hready', -, hglobals⟩ := runItemWith_message env file hready hmsg
  obtain ⟨h'', hrun', -, hsends⟩ := run_runItemWith env hready' hafter
  rw [if_pos hask] at hglobals
  exact ⟨h, h', h'', hrun, hitem, reloadedFrom_of_globals hglobals, hrun', hsends⟩

/-- A decoder that reads every string as a request to reload. -/
def onlyReloads : JsonDecoder where
  decode _ := .ok (.table [(.string (ascii "oper"), .string (ascii "update_self"))])
  decoded s v h := by
    obtain rfl := Except.ok.inj h
    refine .table _ ?_ ?_
    · intro e he
      rw [List.mem_singleton.mp he]
      exact Or.inl ⟨_, rfl⟩
    · intro e he
      rw [List.mem_singleton.mp he]
      exact .string _

def reloadItem : GafqItem :=
  { gafqContent := [], fd := 5
    msg := some { action := ascii "start_action", data := ascii "x" }, errinfo := [] }

theorem reloadedFrom_of_two_requests :
    ∃ h h' h'', run (runItemWith { lib := default, json := onlyReloads, fresh := fun _ => default })
        (start (fun _ => .nil) []) [(.malformed .nil, reloadItem)] = some h ∧
      runItemWith { lib := default, json := onlyReloads, fresh := fun _ => default } h
        (.chunk [.define .dump, .raise .nil], reloadItem) = some h' ∧
      ReloadedFrom (.chunk [.define .dump, .raise .nil]) h.script h'.script ∧
      run (runItemWith { lib := default, json := onlyReloads, fresh := fun _ => default }) h'
        [(.chunk scriptFile, reloadItem)] = some h'' ∧
      h''.script.sends = h'.script.sends ++
        [((.chunk scriptFile : ScriptFile), reloadItem)].flatMap fun x => requested
          { lib := default, json := onlyReloads, fresh := fun _ => default } x.2 := by
  have hmessage : ∀ file : ScriptFile, ∀ x ∈ [(file, reloadItem)], ForStartAction x.2 := by
    intro file x hx
    rw [List.mem_singleton.mp hx]
    exact ⟨ascii "x", rfl⟩
  exact reloadedFrom_of_request _ (fun _ => .nil) [] (hmessage _) (hmessage _) rfl (by decide)

/-- A version that raises behind its first definition: `dump` is the new one. -/
theorem reload_replaces_before_error :
    ¬ ∀ (env : Env) (library : Bytes → Value) (stack : List Value)
        (before : List (ScriptFile × GafqItem)) (file : ScriptFile) (item : GafqItem)
        (data : Bytes) (h h' : Host), (∀ x ∈ before, ForStartAction x.2) →
      item.msg = some { action := ascii "start_action", data := data } →
      asksToReload env (cstr data) = true → file.Fails →
      run (runItemWith env) (start library stack) before = some h →
      runItemWith env h (file, item) = some h' →
      ∀ fn : ScriptFunction,
        h'.script.globals (ascii fn.name) = h.script.globals (ascii fn.name) := by
  intro hkeeps
  let env : Env := { lib := default, json := onlyReloads, fresh := fun _ => default }
  let file : ScriptFile := .chunk [.define .dump, .raise .nil]
  have hmsg : reloadItem.msg = some { action := ascii "start_action", data := ascii "x" } := rfl
  obtain ⟨h', hitem, hleaves⟩ := runItemWith_message env file
    (ready_start (fun _ => .nil) []) hmsg
  have hsame := hkeeps env _ _ [] file reloadItem (ascii "x") _ h' (by simp) rfl (by decide)
    ⟨.nil, by simp⟩ rfl hitem .dump
  have hglobals := hleaves.globals
  rw [if_pos (by decide)] at hglobals
  have hreloaded : ReloadedFrom file (start (fun _ => .nil) []).script h'.script :=
    reloadedFrom_of_globals hglobals
  rw [(hreloaded.raising [.dump] .nil [] rfl).1 .dump List.mem_cons_self] at hsame
  have hload : Func.script 1 (ascii "dump") = .script 0 (ascii "dump") := Value.function.inj hsame
  exact absurd hload (by decide)

end Host

end GafqEngine
