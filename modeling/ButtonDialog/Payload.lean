import ButtonDialog.Text.Blank

/-! What a button carries: the key of its choice and the language it was shown in.

    A payload is written as two lines, the key and then the language. Reading accepts two lines
    that both hold something, unless all of it is blank; whatever is accepted is written back as it
    was read. -/

namespace ButtonDialog

/-- The key of a choice and a language. -/
structure Payload where
  choiceKey : String
  language : String
  deriving DecidableEq

namespace Payload

/-- Ends the key line. -/
def separator : Char := '\n'

/-- The written form. -/
def encode (p : Payload) : String := p.choiceKey ++ String.singleton separator ++ p.language

/-- Reads a written form; nothing unless there are exactly two lines with text on both. -/
def parse? (raw : String) : Option Payload :=
  let key := raw.toList.takeWhile (· != separator)
  match raw.toList.dropWhile (· != separator) with
  | [] => none
  | _ :: language =>
    if Text.isBlankText raw || key.isEmpty || language.isEmpty || language.contains separator then
      none
    else some ⟨String.ofList key, String.ofList language⟩

end Payload

end ButtonDialog
