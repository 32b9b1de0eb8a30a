import ButtonDialog.Json.Printer
import ButtonDialog.Router.Basic

/-! A summary of a router: its languages, the sizes of its procedures, and its handlers. -/

namespace ButtonDialog

/-- The sizes of a procedure: its stages, the choices that the document declares, and the ways back
that were added. -/
structure ProcedureSummary where
  id : String
  title : Option String
  root : String
  stages : Nat
  declared : Nat
  waysBack : Nat
  deriving DecidableEq

/-- A summary. -/
structure Summary where
  languages : List String
  procedures : List ProcedureSummary
  handlers : Nat
  deriving DecidableEq

/-- The forms that a summary can be written in. -/
inductive SummaryFormat where
  | text
  | json
  deriving DecidableEq

/-- The form of a name. -/
def SummaryFormat.ofName? : String → Option SummaryFormat
  | "text" => some .text
  | "json" => some .json
  | _ => none

/-- The summary of a procedure of a graph. -/
def Graph.summaryOf (g : Graph) (p : Graph.Procedure) : ProcedureSummary :=
  let choices := g.choices.toList.filter fun c => c.procedure == p.id
  { id := p.id
    title := p.title
    root := p.root
    stages := p.stages.length
    declared := choices.countP fun c => c.kind == .declared
    waysBack := choices.countP fun c => c.kind != .declared }

/-- The summary of a router. -/
def Router.summary {σ : Type} (r : Router σ) : Summary :=
  ⟨r.languages, r.graph.procedures.map r.graph.summaryOf, r.handlers.size⟩

/-- The line of a procedure. -/
def ProcedureSummary.line (p : ProcedureSummary) : String :=
  "  " ++ p.id ++ (p.title.map fun title => " (" ++ title ++ ")").getD "" ++ ": " ++
    toString p.stages ++ " stages, " ++ toString p.declared ++ " options, " ++
    toString p.waysBack ++ " navigation, root " ++ p.root

/-- The object of a procedure. -/
def ProcedureSummary.toJson (p : ProcedureSummary) : Json :=
  .object [("id", .text p.id), ("title", .optional .text p.title), ("root_stage", .text p.root),
    ("stages", .count p.stages), ("options", .count p.declared), ("navigation", .count p.waysBack)]

namespace Summary

/-- The lines of a summary. -/
def toText (s : Summary) : String :=
  String.intercalate "\n"
    (["languages: " ++ String.intercalate ", " s.languages,
      "procedures: " ++ toString s.procedures.length] ++
      s.procedures.map ProcedureSummary.line ++ ["handlers: " ++ toString s.handlers])

/-- The object of a summary. -/
def toJson (s : Summary) : Json :=
  .object [("languages", .array (s.languages.map .text)),
    ("procedures", .array (s.procedures.map ProcedureSummary.toJson)),
    ("handlers", .count s.handlers)]

/-- A summary in a form. -/
def render (s : Summary) : SummaryFormat → String
  | .text => s.toText
  | .json => s.toJson.renderIndented

end Summary

end ButtonDialog
