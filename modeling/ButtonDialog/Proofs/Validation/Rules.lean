import ButtonDialog.Document.Validation

/-! The rules for drafts, and what it is to break one.

    `Draft.Obeys` says of a whole draft that it keeps a rule, without a word about the order of the
    checks. `Draft.Shows` says that a violation with all that it names is there to be seen: the
    entities it names stand in the draft under the ids it gives. A draft that shows a violation does
    not obey the rule of that violation. -/

namespace ButtonDialog

/-- The phases of validation. -/
inductive Phase where
  | ids
  | languages
  | texts
  | references
  | waysBack
  | completion
  deriving DecidableEq

/-- The place of a phase in the order in which they run. -/
def Phase.place : Phase → Nat
  | .ids => 0
  | .languages => 1
  | .texts => 2
  | .references => 3
  | .waysBack => 4
  | .completion => 5

/-- The rules for drafts. -/
inductive Rule where
  | idGiven
  | idUnique
  | titleWellFormed
  | titleUnique
  | textComplete
  | stageExists
  | buttonExists
  | rootButtonGiven
  | previousButtonGiven
  | previousStageGiven
  | labelGiven
  deriving DecidableEq

/-- The phase that enforces a rule. -/
def Rule.phase : Rule → Phase
  | .idGiven | .idUnique => .ids
  | .titleWellFormed | .titleUnique => .languages
  | .textComplete => .texts
  | .stageExists | .buttonExists => .references
  | .rootButtonGiven | .previousButtonGiven => .waysBack
  | .previousStageGiven | .labelGiven => .completion

/-- The rule that a violation breaks. -/
def Violation.rule : Violation → Rule
  | .missingId .. => .idGiven
  | .duplicateId .. => .idUnique
  | .invalidTitle .. => .titleWellFormed
  | .duplicateLanguage .. => .titleUnique
  | .missingText .. => .textComplete
  | .stageNotFound .. => .stageExists
  | .buttonNotFound .. => .buttonExists
  | .missingRootButton .. => .rootButtonGiven
  | .missingPreviousButton .. => .previousButtonGiven
  | .noPreviousStage .. => .previousStageGiven
  | .noButton .. => .labelGiven

/-! ## Keeping a rule -/

/-- A title of one to ten letters and digits of ASCII. -/
def WellFormedTitle (title : String) : Prop :=
  1 ≤ title.length ∧ title.length ≤ 10 ∧ ∀ c ∈ title.toList, c.isAlphanum = true

namespace Draft

/-- The procedure has a stage of this id. -/
def Procedure.Has (p : Procedure) (stage : Int64) : Prop := ∃ s ∈ p.stages, s.id = some stage

/-- The draft has a button of this id. -/
def Defines (d : Draft) (button : Int64) : Prop := ∃ b ∈ d.buttons, b.id = some button

/-- The draft keeps a rule. -/
def Obeys (d : Draft) : Rule → Prop
  | .idGiven =>
    (∀ p ∈ d.procedures, p.id.isSome ∧
      ∀ s ∈ p.stages, s.id.isSome ∧ ∀ c ∈ s.choices, c.id.isSome) ∧
    ∀ b ∈ d.buttons, b.id.isSome
  | .idUnique =>
    ((d.procedures.filterMap Procedure.id).Nodup ∧ ∀ p ∈ d.procedures,
      (p.stages.filterMap Stage.id).Nodup ∧
        ∀ s ∈ p.stages, (s.choices.filterMap Choice.id).Nodup) ∧
    (d.buttons.filterMap Button.id).Nodup
  | .titleWellFormed => ∀ title ∈ d.languages, WellFormedTitle title
  | .titleUnique => d.languages.Pairwise fun s t => ¬ Text.sameLetters s t
  | .textComplete =>
    (∀ p ∈ d.procedures, ∀ s ∈ p.stages, ∀ language ∈ d.languages, s.text.contains language) ∧
    ∀ b ∈ d.buttons, ∀ language ∈ d.languages, b.text.contains language
  | .stageExists =>
    ∀ p ∈ d.procedures, (∃ root ∈ p.root, p.Has root) ∧ ∀ s ∈ p.stages,
      (∀ id ∈ s.previous, p.Has id) ∧ ∀ c ∈ s.choices, ∀ id ∈ c.next, p.Has id
  | .buttonExists =>
    ∀ p ∈ d.procedures, (∀ id ∈ p.toRootButton, d.Defines id) ∧
      (∀ id ∈ p.toPreviousButton, d.Defines id) ∧
        ∀ s ∈ p.stages, ∀ c ∈ s.choices, ∀ id ∈ c.button, d.Defines id
  | .rootButtonGiven => ∀ p ∈ d.procedures, p.addToRoot → p.toRootButton.isSome
  | .previousButtonGiven => ∀ p ∈ d.procedures, p.addToPrevious → p.toPreviousButton.isSome
  | .previousStageGiven =>
    ∀ p ∈ d.procedures, ∀ s ∈ p.stages, s.id ≠ p.root → s.previous.isSome
  | .labelGiven => ∀ p ∈ d.procedures, ∀ s ∈ p.stages, ∀ c ∈ s.choices, c.button.isSome

/-! ## Showing a violation -/

/-- A procedure of the draft, and its id. -/
def IsProcedure (d : Draft) (i : Int64) (p : Procedure) : Prop :=
  p ∈ d.procedures ∧ p.id = some i

/-- A stage in a procedure of the draft, and the ids of the two. -/
def IsStage (d : Draft) (i : Int64) (p : Procedure) (j : Int64) (s : Stage) : Prop :=
  d.IsProcedure i p ∧ s ∈ p.stages ∧ s.id = some j

/-- The ids, as far as they are given, of everything of a kind in a scope. -/
inductive Lists (d : Draft) : Entity → Scope → List (Option Int64) → Prop
  | procedures : d.Lists .procedure .document (d.procedures.map Procedure.id)
  | stages {i p} (hp : d.IsProcedure i p) :
    d.Lists .stage (.procedure i) (p.stages.map Stage.id)
  | choices {i p j s} (hs : d.IsStage i p j s) :
    d.Lists .choice (.stage i j) (s.choices.map Choice.id)
  | buttons : d.Lists .button .document (d.buttons.map Button.id)

/-- The draft shows a violation. -/
inductive Shows (d : Draft) : Violation → Prop
  | missingId {kind scope ids} (hids : d.Lists kind scope ids) (hnone : none ∈ ids) :
    d.Shows (.missingId kind scope)
  | duplicateId {kind scope ids id} (hids : d.Lists kind scope ids)
    (htwice : 2 ≤ ids.count (some id)) : d.Shows (.duplicateId kind id scope)
  | badCharacter {title} (htitle : title ∈ d.languages)
    (hbad : title = "" ∨ ∃ c ∈ title.toList, c.isAlphanum = false) :
    d.Shows (.invalidTitle title .badCharacter)
  | tooLong {title} (htitle : title ∈ d.languages) (hlong : 10 < title.length) :
    d.Shows (.invalidTitle title .tooLong)
  | duplicateLanguage {before title after earlier}
    (htitle : d.languages = before ++ title :: after) (hearlier : earlier ∈ before)
    (hsame : Text.sameLetters title earlier) : d.Shows (.duplicateLanguage title)
  | stageText {i p j s language} (hs : d.IsStage i p j s) (hlanguage : language ∈ d.languages)
    (hlacks : s.text.contains language = false) :
    d.Shows (.missingText .stage j (.procedure i) language)
  | buttonText {b j language} (hb : b ∈ d.buttons) (hj : b.id = some j)
    (hlanguage : language ∈ d.languages) (hlacks : b.text.contains language = false) :
    d.Shows (.missingText .button j .document language)
  | root {i p} (hp : d.IsProcedure i p) (hroot : ∀ root ∈ p.root, ¬ p.Has root) :
    d.Shows (.stageNotFound .root p.root i)
  | previous {i p s stage} (hp : d.IsProcedure i p) (hs : s ∈ p.stages)
    (hstage : s.previous = some stage) (hnot : ¬ p.Has stage) :
    d.Shows (.stageNotFound .previous (some stage) i)
  | next {i p s c stage} (hp : d.IsProcedure i p) (hs : s ∈ p.stages) (hc : c ∈ s.choices)
    (hstage : c.next = some stage) (hnot : ¬ p.Has stage) :
    d.Shows (.stageNotFound .next (some stage) i)
  | toRootButton {i p button} (hp : d.IsProcedure i p) (hbutton : p.toRootButton = some button)
    (hnot : ¬ d.Defines button) : d.Shows (.buttonNotFound .toRoot button (.procedure i))
  | toPreviousButton {i p button} (hp : d.IsProcedure i p)
    (hbutton : p.toPreviousButton = some button) (hnot : ¬ d.Defines button) :
    d.Shows (.buttonNotFound .toPrevious button (.procedure i))
  | label {i p j s c button} (hs : d.IsStage i p j s) (hc : c ∈ s.choices)
    (hbutton : c.button = some button) (hnot : ¬ d.Defines button) :
    d.Shows (.buttonNotFound .label button (.stage i j))
  | missingRootButton {i p} (hp : d.IsProcedure i p) (hadd : p.addToRoot = true)
    (hnone : p.toRootButton = none) : d.Shows (.missingRootButton i)
  | missingPreviousButton {i p} (hp : d.IsProcedure i p) (hadd : p.addToPrevious = true)
    (hnone : p.toPreviousButton = none) : d.Shows (.missingPreviousButton i)
  | noPreviousStage {i p j s} (hs : d.IsStage i p j s) (hroot : s.id ≠ p.root)
    (hnone : s.previous = none) : d.Shows (.noPreviousStage i j)
  | noButton {i p j s c k} (hs : d.IsStage i p j s) (hc : c ∈ s.choices) (hk : c.id = some k)
    (hnone : c.button = none) : d.Shows (.noButton i j k)

/-- The draft shows a violation of a phase. -/
def ShowsIn (d : Draft) (phase : Phase) (v : Violation) : Prop := d.Shows v ∧ v.rule.phase = phase

end Draft

/-! ## The ids that a violation names -/

/-- The ids of the procedure and the stage of a scope. -/
def Scope.ids : Scope → List Int64
  | .document => []
  | .procedure p => [p]
  | .stage p s => [p, s]

/-- Every id and reference that a violation names. -/
def Violation.ids : Violation → List Int64
  | .missingId _ scope => scope.ids
  | .duplicateId _ id scope => id :: scope.ids
  | .invalidTitle .. | .duplicateLanguage _ => []
  | .missingText _ id scope _ => id :: scope.ids
  | .stageNotFound _ stage procedure => stage.toList ++ [procedure]
  | .buttonNotFound _ button scope => button :: scope.ids
  | .missingRootButton procedure => [procedure]
  | .missingPreviousButton procedure => [procedure]
  | .noPreviousStage procedure stage => [procedure, stage]
  | .noButton procedure stage choice => [procedure, stage, choice]

namespace Draft

/-- Every id and reference written in a choice. -/
def Choice.ids (c : Choice) : List Int64 := c.id.toList ++ c.button.toList ++ c.next.toList

/-- Every id and reference written in a stage. -/
def Stage.ids (s : Stage) : List Int64 :=
  s.id.toList ++ s.previous.toList ++ s.choices.flatMap Choice.ids

/-- Every id and reference written in a procedure. -/
def Procedure.ids (p : Procedure) : List Int64 :=
  p.id.toList ++ p.root.toList ++ p.toRootButton.toList ++ p.toPreviousButton.toList ++
    p.stages.flatMap Stage.ids

/-- Every id and reference written in a draft. -/
def ids (d : Draft) : List Int64 :=
  d.procedures.flatMap Procedure.ids ++ d.buttons.flatMap fun b => b.id.toList

end Draft

end ButtonDialog
