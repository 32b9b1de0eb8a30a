/-! Letter case, for the letters of ASCII alone.

    Two texts are the same up to case when they agree once `A` to `Z` are written small. No letter
    beyond ASCII has a case here, so `É` and `é` stay apart. -/

namespace ButtonDialog.Text

/-- The characters of a text with `A` to `Z` written small. -/
def smallLetters (s : String) : List Char := s.toList.map Char.toLower

/-- Whether two texts are the same up to the case of ASCII letters. -/
def sameLetters (s t : String) : Bool := smallLetters s == smallLetters t

@[simp] theorem sameLetters_iff {s t : String} :
    sameLetters s t = true ↔ smallLetters s = smallLetters t := by
  simp [sameLetters]

@[simp] theorem sameLetters_self (s : String) : sameLetters s s = true := by simp

end ButtonDialog.Text
