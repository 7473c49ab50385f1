import GafqEngine.Script.Execute

/-!
# The arguments of `send_data`

`send_data` takes any two values. Its first argument goes through `gafq_tointeger`
and a conversion to `int`, its second through `gafq_tostring`, `strlen` and the
clamp of the body length, and no step looks at what it loses. So the call does what
its arguments say exactly for the numbers that are an `int` (`IsInt`) and the texts
that are a body (`IsBody`); it has no way to report that it did not.
-/

namespace GafqEngine

open CLib Gafq

/-- The value stands for a number that is an `int`. -/
def IsInt (lib : Lib) (v : Value) : Prop :=
  ∃ n : ℤ, v.toNumber lib = some (.finite n) ∧ -2 ^ 31 ≤ n ∧ n < 2 ^ 31

/-- The value stands for a text without NUL that fits into a message. -/
def IsBody (lib : Lib) (v : Value) : Prop :=
  ∃ s, v.toString? lib = some s ∧ NulFree s ∧ s.length ≤ maxBodyLength

/-- The call goes to the descriptor that `to` is, with a frame whose body is `buf`. -/
structure SendsExactly (lib : Lib) (toArg buf : Value) (call : SendCall) : Prop where
  target : toArg.toNumber lib = some (.finite call.toFd)
  body : ∃ s, buf.toString? lib = some s ∧ socketCodec.decode call.bytes = ([s], [])

theorem toInteger_finite_intCast {n : ℤ} (hlo : -2 ^ 63 ≤ n) (hhi : n < 2 ^ 63) :
    (Number.finite n).toInteger = n := by
  simp only [Number.toInteger, Int.floor_intCast, Int.ceil_intCast, ite_self]
  exact if_pos ⟨hlo, hhi⟩

/-- The descriptor is the number that was passed exactly when that is an `int`. -/
theorem toNumber_eq_sendTarget_iff (lib : Lib) (v : Value) :
    v.toNumber lib = some (.finite (sendTarget lib v)) ↔ IsInt lib v := by
  constructor
  · intro h
    exact ⟨sendTarget lib v, h, le_castInt _, castInt_lt _⟩
  · rintro ⟨n, hn, hlo, hhi⟩
    have hint : v.toInteger lib = n := by
      rw [Value.toInteger, hn]
      exact toInteger_finite_intCast (by omega) (by omega)
    rw [hn, sendTarget, hint, castInt_of_bounds hlo hhi]

/-- What is left of a text is the whole of it exactly when it is a body. -/
theorem take_cstr_eq_self_iff (s : Bytes) :
    (cstr s).take maxBodyLength = s ↔ NulFree s ∧ s.length ≤ maxBodyLength := by
  constructor
  · intro h
    have hnul : NulFree ((cstr s).take maxBodyLength) := (nulFree_cstr s).take _
    have hlen : ((cstr s).take maxBodyLength).length ≤ maxBodyLength := List.length_take_le _ _
    rw [h] at hnul hlen
    exact ⟨hnul, hlen⟩
  · rintro ⟨hnul, hlen⟩
    rw [cstr_of_nulFree hnul, List.take_of_length_le hlen]

/-- The call for a text is exact when nothing of its arguments is lost. -/
theorem sendsExactly_iff {lib : Lib} {toArg buf : Value} {s : Bytes}
    (h : buf.toString? lib = some s) :
    SendsExactly lib toArg buf (frameCall lib toArg (cstr s)) ↔
      IsInt lib toArg ∧ IsBody lib buf := by
  have hdecode : socketCodec.decode (socketCodec.frame ((cstr s).take maxBodyLength)) =
      ([(cstr s).take maxBodyLength], []) := by
    have hle : ∀ b ∈ [(cstr s).take maxBodyLength], b.length ≤ maxBodyLength := by
      intro b hb
      rw [List.mem_singleton.mp hb]
      exact List.length_take_le _ _
    have hframes := socketCodec.decode_frames _ hle
    rwa [socketCodec.frames_cons, socketCodec.frames_nil, List.append_nil] at hframes
  rw [frameCall]
  constructor
  · rintro ⟨htarget, t, ht, hbody⟩
    obtain rfl : s = t := Option.some.inj (h.symm.trans ht)
    rw [hdecode, Prod.mk.injEq, List.cons.injEq] at hbody
    exact ⟨(toNumber_eq_sendTarget_iff lib toArg).mp htarget,
      s, h, (take_cstr_eq_self_iff s).mp hbody.1.1⟩
  · rintro ⟨hint, t, ht, hbody⟩
    obtain rfl : s = t := Option.some.inj (h.symm.trans ht)
    refine ⟨(toNumber_eq_sendTarget_iff lib toArg).mpr hint, s, h, ?_⟩
    rw [hdecode, (take_cstr_eq_self_iff s).mpr hbody]

namespace Script

/-- The outcome tells the script that nothing was sent: an error, or a value other
than the `1` of a call that did. -/
def ReportsFailure : Except Failure Value → Prop
  | .ok v => v ≠ .number (.finite 1)
  | .error (.error _) => True
  | .error .segfault => False

/-- What the outcome of a call owes its arguments: one `send` that is exactly what
they say, or none and a report. -/
def Honours (lib : Lib) (args : List Value) (s : ScriptState)
    (r : Except Failure Value × ScriptState) : Prop :=
  (∃ call, r.2.sends = s.sends ++ [call] ∧
      SendsExactly lib (args.getD 0 .nil) (args.getD 1 .nil) call) ∨
    (r.2.sends = s.sends ∧ ReportsFailure r.1)

/-- A call of `send_data` honours its arguments exactly when the first is a number
that is an `int` and the second a text that is a body. -/
theorem honours_sendDataFunction_iff (env : Env) (args : List Value) (s : ScriptState) :
    Honours env.lib args s ((sendDataFunction env args).exec s) ↔
      IsInt env.lib (args.getD 0 .nil) ∧ IsBody env.lib (args.getD 1 .nil) := by
  cases h : (args.getD 1 .nil).toString? env.lib with
  | none =>
      rw [exec_sendDataFunction_of_none env args h]
      constructor
      · rintro (⟨call, hsends, -⟩ | ⟨-, hreport⟩)
        · exact absurd hsends.symm (by simp)
        · exact hreport.elim
      · rintro ⟨-, text, htext, -⟩
        rw [h] at htext
        cases htext
  | some text =>
      rw [exec_sendDataFunction_of_some env args h, ← sendsExactly_iff h]
      constructor
      · rintro (⟨call, hsends, hcall⟩ | ⟨-, hreport⟩)
        · rw [List.append_cancel_left_eq, List.cons.injEq] at hsends
          exact hsends.1 ▸ hcall
        · exact absurd rfl hreport
      · exact fun hcall => Or.inl ⟨_, rfl, hcall⟩

/-- Without a number, `send_data` sends to descriptor 0 and reports success. -/
theorem not_honours_sendDataFunction_nil :
    ¬ ∀ (env : Env) (args : List Value) (s : ScriptState),
      Honours env.lib args s ((sendDataFunction env args).exec s) := by
  intro h
  have hcall := h
    { lib := default, json := { decode := fun _ => .error .nil, decoded := fun _ _ h => nomatch h },
      fresh := fun _ => default }
    [.nil, .string (ascii "a")]
    { globals := fun _ => .nil, loaded := .nil, loads := 0, sends := [] }
  rw [exec_sendDataFunction_of_some _ _ rfl] at hcall
  rcases hcall with ⟨call, -, hexact⟩ | ⟨-, hreport⟩
  · exact nomatch hexact.target
  · exact hreport rfl

end Script

end GafqEngine
