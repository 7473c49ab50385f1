import GafqEngine.Gafq.Value
import GafqEngine.SocketMsg.Frame

/-!
# The script function `send_data`

`send_data(to, buf)` converts its first argument to a descriptor, packs the C
string of its second into a fresh message, and makes one `send` call with it.
The result of that call is dropped: the function pushes `1` in any case.
-/

namespace GafqEngine

open CLib Gafq

structure SendCall where
  toFd : ℤ
  bytes : Bytes
  deriving DecidableEq

/-- The descriptor that `send_data` takes from its first argument: the integer
of the value, converted to `int`. -/
def sendTarget (lib : Lib) (toArg : Value) : ℤ := castInt (toArg.toInteger lib)

/-- `send_data`: the `send` call it makes and the integer it pushes, for a fresh
message with any bytes in it. There is none when `buf` has no string, since its
null pointer is handed to `strlen`. -/
def sendData (lib : Lib) (msg : SocketMsg) (toArg buf : Value) : Option (SendCall × ℤ) :=
  match buf.toString? lib with
  | none => none
  | some s => some ({ toFd := sendTarget lib toArg, bytes := (msg.pack (s ++ [0])).wire }, 1)

/-- The call for a string without NUL: a frame, cut at the largest body length. -/
def frameCall (lib : Lib) (toArg : Value) (s : Bytes) : SendCall where
  toFd := sendTarget lib toArg
  bytes := socketCodec.frame (s.take maxBodyLength)

theorem frameCall_of_le (lib : Lib) (toArg : Value) {s : Bytes} (h : s.length ≤ maxBodyLength) :
    frameCall lib toArg s =
      { toFd := sendTarget lib toArg, bytes := socketCodec.frame s } := by
  rw [frameCall, List.take_of_length_le h]

theorem sendData_of_none {lib : Lib} {buf : Value} (h : buf.toString? lib = none)
    (msg : SocketMsg) (toArg : Value) : sendData lib msg toArg buf = none := by
  rw [sendData, h]

/-- What goes out for a text is what stands before its first NUL. -/
theorem sendData_of_some {lib : Lib} {buf : Value} {s : Bytes} (h : buf.toString? lib = some s)
    (msg : SocketMsg) (toArg : Value) :
    sendData lib msg toArg buf = some (frameCall lib toArg (cstr s), 1) := by
  rw [sendData, h]
  simp only [SocketMsg.wire_pack, cstr_append_zero, frameCall]

theorem sendData_string (lib : Lib) (msg : SocketMsg) (toArg : Value) {s : Bytes}
    (h : NulFree s) (hlen : s.length ≤ maxBodyLength) :
    sendData lib msg toArg (.string s) =
      some ({ toFd := sendTarget lib toArg, bytes := socketCodec.frame s }, 1) := by
  rw [sendData_of_some rfl msg toArg, cstr_of_nulFree h, frameCall_of_le lib toArg hlen]

end GafqEngine
