import ButtonDialog.Transport.Basic

/-! A transport that accepts every call and shows nothing. -/

namespace ButtonDialog

/-- The transport that shows nothing; every message has the number zero. -/
def silentTransport {σ : Type} : Transport σ where
  send chat _ := return .ok ⟨chat, 0⟩
  edit _ _ := return .ok ()

end ButtonDialog
