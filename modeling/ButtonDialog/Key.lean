import ButtonDialog.Digest.Sha256
import ButtonDialog.Digest.Base64Url

/-! Keys of stages and choices.

    A key is short, has no characters that a chat service could mangle, and depends on nothing but
    the ids it is made of: the ids are joined by two bars, the text is digested, and the digest is
    written in the URL-safe alphabet. Ids are decimal numbers or one of two reserved words, so none
    of them holds a bar and different id lists give different texts. -/

namespace ButtonDialog.Key

/-- What stands between two parts. -/
def separator : String := "||"

/-- The text that is digested. -/
def joined (parts : List String) : String := String.intercalate separator parts

/-- The UTF-8 bytes of a text. -/
def bytes (text : String) : List UInt8 := text.toUTF8.data.toList

theorem bytes_injective {s t : String} (h : bytes s = bytes t) : s = t :=
  String.toByteArray_inj.1 (ByteArray.ext (Array.toList_inj.1 h))

/-- The key of a text: its digest in forty-three symbols. -/
def ofText (text : String) : String := Base64Url.encode (Sha256.digest (bytes text))

/-- The key of a list of parts; no parts have the empty key. -/
def ofParts : List String → String
  | [] => ""
  | part :: parts => ofText (joined (part :: parts))

/-- The key of a stage within its procedure. -/
def stage (procedure stage : String) : String := ofParts [procedure, stage]

/-- The key of a choice within its stage and procedure. -/
def choice (procedure stage choice : String) : String := ofParts [procedure, stage, choice]

@[simp] theorem length_ofText (text : String) : (ofText text).length = 43 := by
  simp [ofText, Base64Url.encode, Base64Url.length_symbols]

end ButtonDialog.Key
