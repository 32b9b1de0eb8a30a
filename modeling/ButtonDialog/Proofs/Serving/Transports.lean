import ButtonDialog.Proofs.Serving.Likeness
import ButtonDialog.Transport.Silent

/-! Transports that accept every call.

    Such a transport may show nothing, write lines or remember the calls. What it leaves is told by
    the calls so far and nothing else, so two of them match, in worlds that are left by the same
    calls. A transport whose calls are logged matches itself. -/

namespace ButtonDialog

/-- Every call succeeds, and leaves a world that tells the calls so far and nothing else. -/
structure Transport.Tallies {σ : Type} (t : Transport σ) (after : List Call → σ) : Prop where
  send : ∀ chat content calls, ∃ m,
    (t.send chat content).effect (after calls) = (.ok m, after (calls ++ [.send chat content]))
  edit : ∀ target content calls,
    (t.edit target content).effect (after calls) = (.ok (), after (calls ++ [.edit target content]))

namespace Transport

variable {σ τ : Type}

/-- Transports that tally match, in worlds that are left by the same calls. -/
theorem Tallies.matches {t : Transport σ} {t' : Transport τ} {after : List Call → σ}
    {after' : List Call → τ} (h : t.Tallies after) (h' : t'.Tallies after') :
    t.Matches t' fun world other => ∃ calls, world = after calls ∧ other = after' calls where
  send chat content := by
    rintro world other ⟨calls, rfl, rfl⟩
    obtain ⟨m, hsend⟩ := h.send chat content calls
    obtain ⟨m', hsend'⟩ := h'.send chat content calls
    rw [hsend, hsend']
    exact ⟨rfl, _, rfl, rfl⟩
  edit target content := by
    rintro world other ⟨calls, rfl, rfl⟩
    rw [h.edit target content calls, h'.edit target content calls]
    exact ⟨rfl, _, rfl, rfl⟩

/-- A transport whose calls are logged matches itself, in every world. -/
theorem matches_logged (t : Transport σ) : t.logged.Matches t Eq where
  send chat content := by
    rintro world _ rfl
    rw [effect_send_logged]
    exact ⟨rfl, rfl⟩
  edit target content := by
    rintro world _ rfl
    rw [effect_edit_logged]
    exact ⟨rfl, rfl⟩

end Transport

/-! ## The transports that tally -/

/-- Nothing is left of calls that are not shown. -/
theorem tallies_silentTransport {σ : Type} (world : σ) :
    silentTransport.Tallies fun _ => world where
  send chat _ _ := ⟨⟨chat, 0⟩, rfl⟩
  edit _ _ _ := rfl

namespace Recorder

/-- The recorder after a call that does not fail. -/
def took (r : Recorder) (call : Call) : Recorder :=
  { r with calls := r.calls ++ [call], accepted := r.accepted + 1 }

theorem record_of_works {r : Recorder} (h : r.Works) (call : Call) :
    record call r = (.ok (r.accepted + 1), r.took call) := by
  have hfailure : r.failure = none := h
  simp only [record, hfailure, took]

/-- The recorder after calls that do not fail. -/
def after (r : Recorder) (calls : List Call) : Recorder := calls.foldl took r

theorem after_concat (r : Recorder) (calls : List Call) (call : Call) :
    r.after (calls ++ [call]) = (r.after calls).took call := List.foldl_concat _ _ _ _

theorem calls_after (r : Recorder) (calls : List Call) :
    (r.after calls).calls = r.calls ++ calls := by
  induction calls generalizing r with
  | nil => exact (List.append_nil _).symm
  | cons call calls ih =>
    refine (ih _).trans ?_
    rw [took, List.append_assoc, List.singleton_append]

theorem works_after {r : Recorder} (h : r.Works) (calls : List Call) : (r.after calls).Works := by
  induction calls generalizing r with
  | nil => exact h
  | cons call calls ih => exact ih h

theorem tallies {r : Recorder} (h : r.Works) : transport.Tallies r.after where
  send chat content calls := by
    have hrecord := record_of_works (works_after h calls) (.send chat content)
    rw [after_concat]
    simp only [transport, Act.effect_bind, Act.effect_modifyWorld, Act.effect_pure, hrecord]
    exact ⟨_, rfl⟩
  edit target content calls := by
    have hrecord := record_of_works (works_after h calls) (.edit target content)
    rw [after_concat]
    simp only [transport, Act.effect_bind, Act.effect_modifyWorld, Act.effect_pure, hrecord]
    rfl

end Recorder

namespace Console

/-- The lines of calls, in order, the messages that are sent numbered from a number on. -/
def spelled : Int64 → List Call → List String
  | _, [] => []
  | next, .send chat content :: calls =>
    line "send" ⟨chat, next⟩ content :: spelled (next + 1) calls
  | next, .edit target content :: calls => line "edit" target content :: spelled next calls

/-- The console after a call whose line is written. -/
def wrote (c : Console) : Call → Console
  | .send chat content =>
    { c with lines := c.lines ++ [line "send" ⟨chat, c.next⟩ content], next := c.next + 1 }
  | .edit target content => { c with lines := c.lines ++ [line "edit" target content] }

theorem write_of_writes {c : Console} (h : c.Writes) (line : String) :
    write line c = (.ok (), { c with lines := c.lines ++ [line] }) := by
  have hfailure : c.failure = none := h
  simp only [write, hfailure]

/-- The console after calls whose lines are written. -/
def after (c : Console) (calls : List Call) : Console := calls.foldl wrote c

theorem after_concat (c : Console) (calls : List Call) (call : Call) :
    c.after (calls ++ [call]) = (c.after calls).wrote call := List.foldl_concat _ _ _ _

theorem lines_after (c : Console) (calls : List Call) :
    (c.after calls).lines = c.lines ++ spelled c.next calls := by
  induction calls generalizing c with
  | nil => exact (List.append_nil _).symm
  | cons call calls ih =>
    refine (ih _).trans ?_
    cases call with
    | send chat content => rw [wrote, List.append_assoc, List.singleton_append, spelled]
    | edit target content => rw [wrote, List.append_assoc, List.singleton_append, spelled]

theorem writes_wrote {c : Console} (h : c.Writes) (call : Call) : (c.wrote call).Writes := by
  cases call with
  | send chat content => exact h
  | edit target content => exact h

theorem writes_after {c : Console} (h : c.Writes) (calls : List Call) : (c.after calls).Writes := by
  induction calls generalizing c with
  | nil => exact h
  | cons call calls ih => exact ih (writes_wrote h call)

/-- A message that is sent has the next number, whether its line is written or not. -/
theorem effect_send (c : Console) (chat : Int64) (content : Content) :
    (transport.send chat content).effect c =
      ((write (line "send" ⟨chat, c.next⟩ content) c.number.2).1.map fun _ => ⟨chat, c.next⟩,
        (write (line "send" ⟨chat, c.next⟩ content) c.number.2).2) := rfl

theorem tallies {c : Console} (h : c.Writes) : transport.Tallies c.after where
  send chat content calls := by
    have hwrites : Writes (c.after calls).number.2 := writes_after h calls
    rw [effect_send, write_of_writes hwrites, after_concat]
    exact ⟨_, rfl⟩
  edit target content calls := by
    rw [after_concat]
    exact write_of_writes (writes_after h calls) (line "edit" target content)

end Console

end ButtonDialog
