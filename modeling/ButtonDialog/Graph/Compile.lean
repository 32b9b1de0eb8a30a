import ButtonDialog.Document.Load
import ButtonDialog.Graph.Basic
import ButtonDialog.Payload

/-! From documents to graphs.

    Procedures, stages and choices are taken in document order. A choice enters the graph with the
    label of the last button of its button id. A stage that is not the root gets one more row for
    the ways back that it has, the previous stage first. No two stages and no two choices may have
    one key, every button that is shown must be there, and every procedure needs its root stage. -/

namespace ButtonDialog

/-- Why a document has no graph. -/
inductive CompileError where
  | buttonNotFound (button : Int64)
  | stageNotFound (procedure stage : Int64)
  | duplicateKey (key : String)
  deriving DecidableEq

/-- The text of a compile error. -/
def CompileError.message : CompileError → String
  | .buttonNotFound button => "button not found: " ++ decimal button
  | .stageNotFound procedure stage =>
    "stage " ++ decimal stage ++ " not found in procedure " ++ decimal procedure
  | .duplicateKey key => "duplicate key generated: " ++ key

/-- A choice that is to enter a graph. -/
structure ChoicePlan where
  id : String
  kind : ChoiceKind
  button : Int64
  next : Option Int64

namespace Document

/-- The id of the way back to the previous stage. -/
def toPreviousId : String := "ToPrevious"

/-- The id of the way back to the root. -/
def toRootId : String := "ToRoot"

/-- The last button of an id. -/
def button? (d : Document) (id : Int64) : Option Button :=
  d.buttons.reverse.find? fun b => b.id == id

/-- A choice as the document declares it. -/
def Choice.plan (c : Choice) : ChoicePlan := ⟨decimal c.id, .declared, c.button, c.next⟩

/-- The ways back that a stage has, the previous stage first. -/
def Procedure.waysBack (p : Procedure) (s : Stage) : List ChoicePlan :=
  let previous := (p.previousButton?.filter fun _ => !s.removeToPrevious).map fun button =>
    ChoicePlan.mk toPreviousId .toPrevious button s.previous
  let root := (p.rootButton?.filter fun _ => !s.removeToRoot).map fun button =>
    ChoicePlan.mk toRootId .toRoot button (some p.root)
  if p.isRoot s then [] else previous.toList ++ root.toList

/-- The rows of choices of a stage, with the row of its ways back if it has any. -/
def Procedure.plans (p : Procedure) (s : Stage) : List (List ChoicePlan) :=
  let back := p.waysBack s
  s.rows.map (·.map Choice.plan) ++ if back.isEmpty then [] else [back]

end Document

namespace Graph

/-! ## Layouts -/

/-- The button of a choice in a language, if it has a label there. -/
def Choice.button? (c : Choice) (language : String) : Option Button :=
  (c.text.get? language).map fun label => ⟨label, (Payload.mk c.key language).encode⟩

/-- The buttons of rows of choices in a language; rows without buttons are left out. -/
def layoutIn (rows : List (List Choice)) (language : String) : Layout :=
  ⟨(rows.map fun row => row.filterMap fun c => c.button? language).filter fun row => !row.isEmpty⟩

/-- The layouts of rows of choices, one for every language that any choice has a label in. -/
def layoutsOf (rows : List (List Choice)) : NameTable Layout :=
  .ofList ((rows.flatten.flatMap fun c => c.text.names).map fun language =>
    (language, layoutIn rows language))

/-! ## Entering parts -/

/-- The graph with one more choice, and the place of the choice. -/
def addChoice (d : Document) (procedure stage : String) (g : Graph) (plan : ChoicePlan) :
    Except CompileError (Graph × Nat) :=
  let key := Key.choice procedure stage plan.id
  if g.choicePlaces.contains key then .error (.duplicateKey key)
  else match d.button? plan.button with
    | none => .error (.buttonNotFound plan.button)
    | some button =>
      let place := g.choices.size
      let choice : Choice :=
        ⟨key, procedure, stage, plan.id, plan.kind, button.text, plan.next.map decimal⟩
      .ok ({ g with
        choices := g.choices.push choice
        choicePlaces := g.choicePlaces.insert key place }, place)

/-- Threads a graph through the parts of a list, and collects their places. -/
def addEach {α β : Type} (add : Graph → α → Except CompileError (Graph × β)) :
    Graph → List α → Except CompileError (Graph × List β)
  | g, [] => .ok (g, [])
  | g, a :: as => do
    let (g, b) ← add g a
    let (g, bs) ← addEach add g as
    return (g, b :: bs)

/-- The graph with one more stage and its choices, and the place of the stage. -/
def addStage (d : Document) (p : Document.Procedure) (g : Graph) (s : Document.Stage) :
    Except CompileError (Graph × Nat) := do
  let procedure := decimal p.id
  let stage := decimal s.id
  let key := Key.stage procedure stage
  if g.stagePlaces.contains key then throw (.duplicateKey key)
  let (g, rows) ← addEach (addEach (addChoice d procedure stage)) g (p.plans s)
  let place := g.stages.size
  let compiled : Stage := {
    key
    procedure
    id := stage
    title := s.title
    previous := s.previous.map decimal
    text := s.text
    mode := .plain
    rows
    layouts := layoutsOf (g.choiceRows rows) }
  return ({ g with
    stages := g.stages.push compiled
    stagePlaces := g.stagePlaces.insert key place }, place)

/-- The graph with one more procedure and its stages. -/
def addProcedure (d : Document) (g : Graph) (p : Document.Procedure) :
    Except CompileError Graph := do
  if !p.stages.any p.isRoot then throw (.stageNotFound p.id p.root)
  let (g, stages) ← addEach (addStage d p) g p.stages
  let compiled : Procedure := ⟨decimal p.id, p.title, decimal p.root, stages⟩
  return { g with procedures := g.procedures ++ [compiled] }

/-- The graph of a document. -/
def compile (d : Document) : Except CompileError Graph :=
  d.procedures.foldlM (addProcedure d) (empty d.languages)

/-- The record of a graph that has been compiled. -/
def compileRecord (g : Graph) : LogRecord :=
  ⟨.info, "procedure graph compiled",
    [("procedures", toString g.procedures.length), ("stages", toString g.stages.size),
      ("options", toString g.choices.size)], []⟩

end Graph

end ButtonDialog
