import ButtonDialog.Graph.Compile

/-! The graph that a document compiles to.

    What a document compiles to can be said without the conditions of compiling: choices, stages
    and procedures enter the graph one after another, each at the next place. -/

namespace ButtonDialog

namespace Graph

/-! ## Entering without conditions -/

/-- The graph with one more choice. -/
def withChoice (g : Graph) (c : Choice) : Graph :=
  { g with
    choices := g.choices.push c
    choicePlaces := g.choicePlaces.insert c.key g.choices.size }

/-- The graph with more choices. -/
def withChoices (g : Graph) (cs : List Choice) : Graph := cs.foldl withChoice g

/-- The graph with one more stage. -/
def withStage (g : Graph) (s : Stage) : Graph :=
  { g with
    stages := g.stages.push s
    stagePlaces := g.stagePlaces.insert s.key g.stages.size }

/-- The graph with these procedures. -/
def withProcedures (g : Graph) (ps : List Procedure) : Graph := { g with procedures := ps }

/-- The places of rows of choices that enter one after another, the first at place `first`. -/
def numbered {α : Type} : Nat → List (List α) → List (List Nat)
  | _, [] => []
  | first, row :: rows => List.range' first row.length :: numbered (first + row.length) rows

theorem numbered_map {α β : Type} (f : α → β) (first : Nat) (rows : List (List α)) :
    numbered first (rows.map (·.map f)) = numbered first rows := by
  induction rows generalizing first with
  | nil => rfl
  | cons row rows ih => rw [List.map_cons, numbered, numbered, List.length_map, ih]

theorem withChoices_append (g : Graph) (cs cs' : List Choice) :
    g.withChoices (cs ++ cs') = (g.withChoices cs).withChoices cs' := List.foldl_append

/-- What one more choice does not change, choices do not change. -/
theorem apply_withChoices {α : Type} {f : Graph → α} (h : ∀ g c, f (g.withChoice c) = f g)
    (g : Graph) (cs : List Choice) : f (g.withChoices cs) = f g := by
  induction cs generalizing g with
  | nil => rfl
  | cons c cs ih =>
    rw [← h g c]
    exact ih (g.withChoice c)

@[simp] theorem stages_withChoices (g : Graph) (cs : List Choice) :
    (g.withChoices cs).stages = g.stages := apply_withChoices (fun _ _ => rfl) g cs

@[simp] theorem stagePlaces_withChoices (g : Graph) (cs : List Choice) :
    (g.withChoices cs).stagePlaces = g.stagePlaces := apply_withChoices (fun _ _ => rfl) g cs

@[simp] theorem choices_withChoices (g : Graph) (cs : List Choice) :
    (g.withChoices cs).choices = g.choices ++ cs.toArray := by
  induction cs generalizing g with
  | nil => simp [withChoices]
  | cons c cs ih =>
    change ((g.withChoice c).withChoices cs).choices = _
    rw [ih]
    simp [withChoice]

theorem contains_choicePlaces_withChoices (g : Graph) (cs : List Choice) (key : String) :
    (g.withChoices cs).choicePlaces.contains key = true ↔
      g.choicePlaces.contains key = true ∨ key ∈ cs.map Choice.key := by
  induction cs generalizing g with
  | nil => simp [withChoices]
  | cons c cs ih =>
    change ((g.withChoice c).withChoices cs).choicePlaces.contains key = true ↔ _
    rw [ih, withChoice, NameTable.contains_insert, List.map_cons, List.mem_cons, or_assoc]

theorem filterMap_getElem?_range' {α : Type} (before row after : List α) :
    ((List.range' before.length row.length).filterMap fun place =>
      (before ++ (row ++ after))[place]?) = row := by
  induction row generalizing before with
  | nil => rfl
  | cons a row ih =>
    have hfirst : (before ++ (a :: row ++ after))[before.length]? = some a := by simp
    have hrest := ih (before ++ [a])
    rw [List.length_append, List.length_singleton, List.append_assoc] at hrest
    rw [List.length_cons, List.range'_succ, List.filterMap_cons_some hfirst]
    exact congrArg (a :: ·) hrest

/-- Rows that have entered are read back from their places, also when more has entered since. -/
theorem choiceRows_numbered {g : Graph} {before after : List Choice} {rows : List (List Choice)}
    (h : g.choices.toList = before ++ (rows.flatten ++ after)) :
    g.choiceRows (numbered before.length rows) = rows := by
  induction rows generalizing before with
  | nil => rfl
  | cons row rows ih =>
    rw [List.flatten_cons, List.append_assoc] at h
    have hrow := filterMap_getElem?_range' before row (rows.flatten ++ after)
    have hrest := ih (by rw [h, List.append_assoc] : g.choices.toList = before ++ row ++ _)
    rw [List.length_append] at hrest
    simp only [← h, Array.getElem?_toList] at hrow
    simp only [choiceRows, numbered, List.map_cons] at hrest ⊢
    rw [hrow, hrest]

end Graph

/-! ## The graph of a document -/

namespace Document

/-- The label of a button id; no language has one if there is no such button. -/
def label (d : Document) (button : Int64) : LanguageText :=
  ((d.button? button).map Button.text).getD .empty

/-- The choice that a plan becomes in a stage. -/
def compiledChoice (d : Document) (p : Procedure) (s : Stage) (plan : ChoicePlan) : Graph.Choice :=
  ⟨Key.choice (decimal p.id) (decimal s.id) plan.id, decimal p.id, decimal s.id, plan.id, plan.kind,
    d.label plan.button, plan.next.map decimal⟩

/-- The rows of choices that a stage has in the graph. -/
def compiledRows (d : Document) (p : Procedure) (s : Stage) : List (List Graph.Choice) :=
  (p.plans s).map (·.map (d.compiledChoice p s))

/-- The choices that stages have in the graph. -/
def compiledChoices (d : Document) (xs : List (Procedure × Stage)) : List Graph.Choice :=
  xs.flatMap fun x => (d.compiledRows x.1 x.2).flatten

theorem compiledChoices_cons (d : Document) (x : Procedure × Stage)
    (xs : List (Procedure × Stage)) :
    d.compiledChoices (x :: xs) = (d.compiledRows x.1 x.2).flatten ++ d.compiledChoices xs :=
  List.flatMap_cons

theorem compiledChoices_append (d : Document) (xs ys : List (Procedure × Stage)) :
    d.compiledChoices (xs ++ ys) = d.compiledChoices xs ++ d.compiledChoices ys :=
  List.flatMap_append

theorem compiledChoices_singleton (d : Document) (x : Procedure × Stage) :
    d.compiledChoices [x] = (d.compiledRows x.1 x.2).flatten := List.flatMap_singleton ..

/-- The key that a stage has in the graph. -/
def Procedure.stageKey (p : Procedure) (s : Stage) : String :=
  Key.stage (decimal p.id) (decimal s.id)

/-- The stage in the graph, its choices at the places from `first` on. -/
def compiledStage (d : Document) (p : Procedure) (s : Stage) (first : Nat) : Graph.Stage where
  key := p.stageKey s
  procedure := decimal p.id
  id := decimal s.id
  title := s.title
  previous := s.previous.map decimal
  text := s.text
  mode := .plain
  rows := Graph.numbered first (d.compiledRows p s)
  layouts := Graph.layoutsOf (d.compiledRows p s)

/-- The stages of a procedure, each with the procedure. -/
def Procedure.staged (p : Procedure) : List (Procedure × Stage) := p.stages.map (p, ·)

/-- The stages of a document, each with its procedure. -/
def staged (d : Document) : List (Procedure × Stage) := d.procedures.flatMap Procedure.staged

/-- Procedures in the graph, their stages at the places from `first` on. -/
def compiledProcedures : Nat → List Procedure → List Graph.Procedure
  | _, [] => []
  | first, p :: ps =>
    ⟨decimal p.id, p.title, decimal p.root, List.range' first p.stages.length⟩ ::
      compiledProcedures (first + p.stages.length) ps

end Document

namespace Graph

/-- The graph with one more stage and its choices. -/
def enterStage (d : Document) (g : Graph) (x : Document.Procedure × Document.Stage) : Graph :=
  (g.withChoices (d.compiledRows x.1 x.2).flatten).withStage
    (d.compiledStage x.1 x.2 g.choices.size)

/-- The graph with more stages and their choices. -/
def enterStages (d : Document) (g : Graph) (xs : List (Document.Procedure × Document.Stage)) :
    Graph := xs.foldl (enterStage d) g

end Graph

/-- The graph of a document: its stages entered in order, and its procedures. -/
def Document.graph (d : Document) : Graph :=
  (Graph.enterStages d (.empty d.languages) d.staged).withProcedures
    (Document.compiledProcedures 0 d.procedures)

/-! ## Entering stages -/

namespace Graph

variable {d : Document} {p : Document.Procedure} {s : Document.Stage}

theorem enterStages_append (g : Graph) (xs ys : List (Document.Procedure × Document.Stage)) :
    enterStages d g (xs ++ ys) = enterStages d (enterStages d g xs) ys := List.foldl_append

theorem contains_stagePlaces_enterStages (g : Graph)
    (xs : List (Document.Procedure × Document.Stage)) (key : String) :
    (enterStages d g xs).stagePlaces.contains key = true ↔
      g.stagePlaces.contains key = true ∨ key ∈ xs.map fun x => x.1.stageKey x.2 := by
  induction xs generalizing g with
  | nil => simp [enterStages]
  | cons x xs ih =>
    have hone : (enterStage d g x).stagePlaces.contains key = true ↔
        g.stagePlaces.contains key = true ∨ key = x.1.stageKey x.2 := by
      rw [enterStage, withStage, NameTable.contains_insert, stagePlaces_withChoices]
      rfl
    change (enterStages d (enterStage d g x) xs).stagePlaces.contains key = true ↔ _
    rw [ih, hone, List.map_cons, List.mem_cons, or_assoc]

theorem contains_choicePlaces_enterStages (g : Graph)
    (xs : List (Document.Procedure × Document.Stage)) (key : String) :
    (enterStages d g xs).choicePlaces.contains key = true ↔
      g.choicePlaces.contains key = true ∨
        key ∈ (d.compiledChoices xs).map Choice.key := by
  induction xs generalizing g with
  | nil => simp [enterStages, Document.compiledChoices]
  | cons x xs ih =>
    have hone : (enterStage d g x).choicePlaces.contains key = true ↔
        g.choicePlaces.contains key = true ∨
          key ∈ (d.compiledRows x.1 x.2).flatten.map Choice.key :=
      contains_choicePlaces_withChoices g _ key
    change (enterStages d (enterStage d g x) xs).choicePlaces.contains key = true ↔ _
    rw [ih, hone, Document.compiledChoices_cons, List.map_append, List.mem_append, or_assoc]

theorem size_stages_enterStages (g : Graph)
    (xs : List (Document.Procedure × Document.Stage)) :
    (enterStages d g xs).stages.size = g.stages.size + xs.length := by
  induction xs generalizing g with
  | nil => rfl
  | cons x xs ih =>
    have hone : (enterStage d g x).stages.size = g.stages.size + 1 := by
      simp [enterStage, withStage]
    change (enterStages d (enterStage d g x) xs).stages.size = _
    rw [ih, hone, List.length_cons]
    omega

/-- What one more choice and one more stage do not change, stages do not change. -/
theorem apply_enterStages {α : Type} {f : Graph → α} (hchoice : ∀ g c, f (g.withChoice c) = f g)
    (hstage : ∀ g s, f (g.withStage s) = f g) (g : Graph)
    (xs : List (Document.Procedure × Document.Stage)) : f (enterStages d g xs) = f g := by
  induction xs generalizing g with
  | nil => rfl
  | cons x xs ih =>
    have hone : f (enterStage d g x) = f g := by
      rw [enterStage, hstage, apply_withChoices hchoice]
    rw [← hone]
    exact ih (enterStage d g x)

theorem procedures_enterStages (g : Graph)
    (xs : List (Document.Procedure × Document.Stage)) :
    (enterStages d g xs).procedures = g.procedures :=
  apply_enterStages (fun _ _ => rfl) (fun _ _ => rfl) g xs

theorem languages_enterStages (g : Graph)
    (xs : List (Document.Procedure × Document.Stage)) :
    (enterStages d g xs).languages = g.languages :=
  apply_enterStages (fun _ _ => rfl) (fun _ _ => rfl) g xs

/-! ## Entering procedures -/

theorem withChoices_withProcedures (g : Graph) (ps : List Procedure) (cs : List Choice) :
    (g.withProcedures ps).withChoices cs = (g.withChoices cs).withProcedures ps := by
  induction cs generalizing g with
  | nil => rfl
  | cons c cs ih => exact ih (g.withChoice c)

/-- Stages enter without regard to the procedures that are there. -/
theorem enterStages_withProcedures (g : Graph) (ps : List Procedure)
    (xs : List (Document.Procedure × Document.Stage)) :
    enterStages d (g.withProcedures ps) xs = (enterStages d g xs).withProcedures ps := by
  induction xs generalizing g with
  | nil => rfl
  | cons x xs ih =>
    have hone : enterStage d (g.withProcedures ps) x = (enterStage d g x).withProcedures ps := by
      rw [enterStage, withChoices_withProcedures]
      rfl
    change enterStages d (enterStage d (g.withProcedures ps) x) xs = _
    rw [hone, ih]
    rfl

/-- The graph with more procedures and their stages. -/
def enterProcedures (d : Document) (g : Graph) (ps : List Document.Procedure) : Graph :=
  (enterStages d g (ps.flatMap Document.Procedure.staged)).withProcedures
    (g.procedures ++ Document.compiledProcedures g.stages.size ps)

theorem enterProcedures_nil (g : Graph) : enterProcedures d g [] = g := by
  rw [enterProcedures, Document.compiledProcedures, List.append_nil]
  rfl

theorem enterProcedures_cons (g : Graph) (ps : List Document.Procedure) :
    enterProcedures d g (p :: ps) = enterProcedures d (enterProcedures d g [p]) ps := by
  have hsize : (enterProcedures d g [p]).stages.size = g.stages.size + p.stages.length := by
    rw [enterProcedures, withProcedures, size_stages_enterStages, List.flatMap_singleton,
      Document.Procedure.staged, List.length_map]
  have hstages : enterStages d (enterProcedures d g [p])
      (ps.flatMap Document.Procedure.staged) =
      (enterStages d g ((p :: ps).flatMap Document.Procedure.staged)).withProcedures
        (enterProcedures d g [p]).procedures := by
    rw [List.flatMap_cons, enterStages_append, enterProcedures, enterStages_withProcedures,
      List.flatMap_singleton]
    rfl
  rw [enterProcedures, enterProcedures, hstages, hsize]
  simp only [enterProcedures, withProcedures, Document.compiledProcedures, List.append_assoc,
    List.singleton_append]

end Graph

end ButtonDialog
