import ButtonDialog.Document.Basic
import ButtonDialog.Document.Violation
import ButtonDialog.Text.AsciiCase

/-! From drafts to documents.

    The rules are checked in phases and the first violation ends the check: ids are there and
    unique, language titles are well formed and distinct, every text covers every language,
    references lead somewhere, the ways back that are wanted have buttons. What is left is checked
    while the document is built: every stage but the root has a previous one, and every choice has a
    button. A phase relies on the ones before it, so where it runs every id is there. -/

namespace ButtonDialog.Draft

/-! ## Ids -/

/-- An id that must be there and not be among those `seen` before. -/
def freshId (kind : Entity) (scope : Scope) (seen : List Int64) :
    Option Int64 → Except Violation Int64
  | none => .error (.missingId kind scope)
  | some id => if id ∈ seen then .error (.duplicateId kind id scope) else .ok id

/-- Checks the parts of a scope: each has an id that is not among those `seen` before, and what is
inside it is in order. -/
def checkParts {α : Type} (kind : Entity) (scope : Scope) (id : α → Option Int64)
    (inside : Int64 → α → Except Violation Unit) : List Int64 → List α → Except Violation Unit
  | _, [] => .ok ()
  | seen, part :: parts => do
    let own ← freshId kind scope seen (id part)
    inside own part
    checkParts kind scope id inside (own :: seen) parts

/-- Checks the ids of the choices of a stage, which has the second id in a procedure of the
first. -/
def checkChoiceIds (procedure stage : Int64) (s : Stage) : Except Violation Unit :=
  checkParts .choice (.stage procedure stage) Choice.id (fun _ _ => .ok ()) [] s.choices

/-- Checks the ids of the stages of a procedure of an id, each with its choices. -/
def checkStageIds (procedure : Int64) (p : Procedure) : Except Violation Unit :=
  checkParts .stage (.procedure procedure) Stage.id (checkChoiceIds procedure) [] p.stages

/-- Every procedure, stage, choice and button has an id of its own in its scope. -/
def checkIds (d : Draft) : Except Violation Unit := do
  checkParts .procedure .document Procedure.id checkStageIds [] d.procedures
  checkParts .button .document Button.id (fun _ _ => .ok ()) [] d.buttons

/-! ## Languages -/

/-- What is wrong with a title, if anything. -/
def titleDefect? (title : String) : Option TitleDefect :=
  if title.isEmpty || !title.toList.all Char.isAlphanum then some .badCharacter
  else if maxTitleLength < title.length then some .tooLong
  else none

/-- Checks titles, none of which may equal one `seen` before up to case. -/
def checkTitles : List String → List String → Except Violation Unit
  | _, [] => .ok ()
  | seen, title :: titles =>
    match titleDefect? title with
    | some defect => .error (.invalidTitle title defect)
    | none =>
      if seen.any (Text.sameLetters title) then .error (.duplicateLanguage title)
      else checkTitles (title :: seen) titles

/-- Titles are a few letters and digits of ASCII, and distinct up to case. -/
def checkLanguages (d : Draft) : Except Violation Unit := checkTitles [] d.languages

/-! ## Texts -/

/-- Checks that a text is there in every language. -/
def checkText (languages : List String) (kind : Entity) (id : Int64) (scope : Scope)
    (text : LanguageText) : Except Violation Unit :=
  match languages.find? fun language => !text.contains language with
  | some language => .error (.missingText kind id scope language)
  | none => .ok ()

/-- Every stage and every button has a text in every language. -/
def checkTexts (d : Draft) : Except Violation Unit := do
  d.procedures.forM fun p => p.stages.forM fun s =>
    checkText d.languages .stage (s.id.getD 0) (.procedure (p.id.getD 0)) s.text
  d.buttons.forM fun b => checkText d.languages .button (b.id.getD 0) .document b.text

/-! ## References -/

/-- Whether a procedure has a stage of an id. -/
def Procedure.hasStage (p : Procedure) (id : Int64) : Bool := p.stages.any fun s => s.id == some id

/-- Whether there is a button of an id. -/
def hasButton (d : Draft) (id : Int64) : Bool := d.buttons.any fun b => b.id == some id

/-- Checks a reference to a stage of the procedure, if it is set. -/
def Procedure.checkStage (p : Procedure) (field : StageField) :
    Option Int64 → Except Violation Unit
  | none => .ok ()
  | some id =>
    if p.hasStage id then .ok () else .error (.stageNotFound field (some id) (p.id.getD 0))

/-- Checks a reference to a button, if it is set. -/
def checkButton (d : Draft) (field : ButtonField) (scope : Scope) :
    Option Int64 → Except Violation Unit
  | none => .ok ()
  | some id => if d.hasButton id then .ok () else .error (.buttonNotFound field id scope)

/-- Checks the references of a stage and its choices. -/
def checkStageReferences (d : Draft) (p : Procedure) (s : Stage) : Except Violation Unit := do
  p.checkStage .previous s.previous
  s.choices.forM fun c => do
    d.checkButton .label (.stage (p.id.getD 0) (s.id.getD 0)) c.button
    p.checkStage .next c.next

/-- Checks the references of a procedure and its stages. -/
def checkProcedureReferences (d : Draft) (p : Procedure) : Except Violation Unit := do
  let scope := Scope.procedure (p.id.getD 0)
  if !p.root.any p.hasStage then throw (.stageNotFound .root p.root (p.id.getD 0))
  d.checkButton .toRoot scope p.toRootButton
  d.checkButton .toPrevious scope p.toPreviousButton
  p.stages.forM (d.checkStageReferences p)

/-- Every procedure has its root stage, and every reference that is set leads somewhere. -/
def checkReferences (d : Draft) : Except Violation Unit :=
  d.procedures.forM d.checkProcedureReferences

/-! ## Ways back -/

/-- A way back that is wanted has a button. -/
def checkNavigation (d : Draft) : Except Violation Unit :=
  d.procedures.forM fun p => do
    if p.addToRoot && p.toRootButton.isNone then throw (.missingRootButton (p.id.getD 0))
    if p.addToPrevious && p.toPreviousButton.isNone then
      throw (.missingPreviousButton (p.id.getD 0))

/-! ## Building the document -/

/-- An id that must be there. -/
def require (kind : Entity) (scope : Scope) : Option Int64 → Except Violation Int64
  | none => .error (.missingId kind scope)
  | some id => .ok id

/-- The choice of a document. -/
def Choice.check (procedure stage : Int64) (c : Choice) : Except Violation Document.Choice := do
  let id ← require .choice (.stage procedure stage) c.id
  match c.button with
  | none => throw (.noButton procedure stage id)
  | some button => return { id, button, next := c.next }

/-- The stage of a document. -/
def Stage.check (procedure root : Int64) (s : Stage) : Except Violation Document.Stage := do
  let id ← require .stage (.procedure procedure) s.id
  if s.previous.isNone && id != root then throw (.noPreviousStage procedure id)
  let rows ← s.rows.mapM fun row => row.mapM (Choice.check procedure id)
  return {
    id
    title := s.title
    previous := s.previous
    removeToRoot := s.removeToRoot
    removeToPrevious := s.removeToPrevious
    text := s.text
    rows }

/-- The procedure of a document. -/
def Procedure.check (p : Procedure) : Except Violation Document.Procedure := do
  let id ← require .procedure .document p.id
  match p.root with
  | none => throw (.stageNotFound .root none id)
  | some root =>
    let stages ← p.stages.mapM (Stage.check id root)
    return {
      id
      title := p.title
      root
      addToRoot := p.addToRoot
      addToPrevious := p.addToPrevious
      toRootButton := p.toRootButton
      toPreviousButton := p.toPreviousButton
      stages }

/-- The button of a document. -/
def Button.check (b : Button) : Except Violation Document.Button := do
  return { id := ← require .button .document b.id, title := b.title, text := b.text }

/-- The document of a draft. -/
def build (d : Draft) : Except Violation Document := do
  let procedures ← d.procedures.mapM Procedure.check
  let buttons ← d.buttons.mapM Button.check
  return { languages := d.languages, buttons, procedures }

/-- Checks a draft and builds its document. -/
def validate (d : Draft) : Except Violation Document := do
  d.checkIds
  d.checkLanguages
  d.checkTexts
  d.checkReferences
  d.checkNavigation
  d.build

end ButtonDialog.Draft
