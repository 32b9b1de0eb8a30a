import ButtonDialog.Transport.Basic

/-! A transport that remembers its calls, and may be told to fail. -/

namespace ButtonDialog

/-- The calls so far, failed ones too, the number of calls that did not fail, and why calls fail. -/
structure Recorder where
  calls : List Call
  accepted : Int64
  failure : Option String

namespace Recorder

/-- The recorder before its first call. -/
def fresh : Recorder := ⟨[], 0, none⟩

/-- The edits among the calls, failed ones too. -/
def edits (r : Recorder) : List Call :=
  r.calls.filter fun
    | .edit .. => true
    | .send .. => false

/-- Remembers a call. One that does not fail has the next number. -/
def record (call : Call) (r : Recorder) : Except TransportError Int64 × Recorder :=
  let r := { r with calls := r.calls ++ [call] }
  match r.failure with
  | some reason => (.error (.rejected reason), r)
  | none => (.ok (r.accepted + 1), { r with accepted := r.accepted + 1 })

/-- The transport that remembers. A message that is sent has the number of its call. -/
def transport : Transport Recorder where
  send chat content := do
    return (← Act.modifyWorld (record (.send chat content))).map (MessageRef.mk chat)
  edit target content := do
    return (← Act.modifyWorld (record (.edit target content))).map fun _ => ()

end Recorder

end ButtonDialog
