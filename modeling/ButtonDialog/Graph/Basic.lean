import ButtonDialog.Draft.Basic
import ButtonDialog.Key
import ButtonDialog.Markup

/-! The graph that clicks are routed in.

    The graph holds its stages and its choices in two arrays, and procedures and stages name their
    parts by their places in these arrays. Two tables lead from keys to places. What leads back,
    from a choice to its stage and procedure, are ids, decimal texts that keys are made of. -/

namespace ButtonDialog

/-- Where a choice comes from: the document, or a way back that was added to its stage. -/
inductive ChoiceKind where
  | declared
  | toPrevious
  | toRoot
  deriving DecidableEq

/-- The name of a kind. -/
def ChoiceKind.name : ChoiceKind → String
  | .declared => "declared"
  | .toPrevious => "to_previous"
  | .toRoot => "to_root"

/-- A choice, with its label in every language that its button has. -/
structure Graph.Choice where
  key : String
  procedure : String
  stage : String
  id : String
  kind : ChoiceKind
  text : LanguageText
  next : Option String
  deriving DecidableEq

/-- A stage: the places of its choices, row by row, and its buttons in every language. -/
structure Graph.Stage where
  key : String
  procedure : String
  id : String
  title : Option String
  previous : Option String
  text : LanguageText
  mode : TextMode
  rows : List (List Nat)
  layouts : NameTable Layout
  deriving DecidableEq

/-- A procedure: the places of its stages. -/
structure Graph.Procedure where
  id : String
  title : Option String
  root : String
  stages : List Nat
  deriving DecidableEq

/-- A compiled document. -/
structure Graph where
  languages : List String
  procedures : List Graph.Procedure
  stages : Array Graph.Stage
  choices : Array Graph.Choice
  stagePlaces : NameTable Nat
  choicePlaces : NameTable Nat

/-- A stage in one language. -/
structure Rendered where
  stage : Graph.Stage
  language : String
  text : String
  mode : TextMode
  layout : Option Layout

namespace Graph

/-- The graph of no procedures. -/
def empty (languages : List String) : Graph := ⟨languages, [], #[], #[], .empty, .empty⟩

/-- Whether a language is among those of the graph, in this very spelling. -/
def supports (g : Graph) (language : String) : Bool := g.languages.contains language

/-- The first procedure of an id. -/
def procedure? (g : Graph) (id : String) : Option Procedure :=
  g.procedures.find? fun p => p.id == id

/-- The stage of a key. -/
def stageOfKey? (g : Graph) (key : String) : Option Stage :=
  (g.stagePlaces.get? key).bind fun place => g.stages[place]?

/-- The choice of a key. -/
def choiceOfKey? (g : Graph) (key : String) : Option Choice :=
  (g.choicePlaces.get? key).bind fun place => g.choices[place]?

/-- The stage of a procedure. -/
def stage? (g : Graph) (procedure stage : String) : Option Stage :=
  g.stageOfKey? (Key.stage procedure stage)

/-- The choices of rows of places. -/
def choiceRows (g : Graph) (rows : List (List Nat)) : List (List Choice) :=
  rows.map fun row => row.filterMap fun place => g.choices[place]?

/-- A stage in a language, if there is one and it has a text in that language. -/
def render (g : Graph) (procedure stage language : String) : Option Rendered := do
  let s ← g.stage? procedure stage
  let text ← s.text.get? language
  return ⟨s, language, text, s.mode, s.layouts.get? language⟩

end Graph

end ButtonDialog
