import ButtonDialog.Proofs.Reading.Schema

/-! Errors of shape point at the fault.

    Reading a value by the schema fails only with a fault that is there, at the place that the error
    names, and it succeeds only if there is no fault at all. This is shown of every reader of a part
    and carried along the steps of a record: whatever the order in which fields are read, the error
    is the fault of one of them. -/

namespace ButtonDialog

namespace Draft

open Checks Json Json.Lenient Schema

variable {α : Type} {path : Path} {members : NameTable Json} {name : String}

/-! ## Values and lists -/

theorem detects_expect {shape : Shape} {found : Option α} {v : Json}
    (h : found.isSome = shape.recognizes v) :
    Detects (expect path shape found) ((Schema.value shape).Faulty path v) := by
  cases found with
  | some a => exact .of_ok a fun e hfault => (faulty_value_iff.1 hfault).2 (Shape.fits_iff.2 h.symm)
  | none =>
    refine .of_error (faulty_value_iff.2 ⟨rfl, fun hfits => ?_⟩)
    rw [Shape.fits_iff.1 hfits] at h
    cases h

/-- A reader detects the faults that a schema shows, at every place and in every value. -/
def ReadsBy (f : Path → Json → Except ShapeError α) (s : Schema) : Prop :=
  ∀ path v, Detects (f path v) (s.Faulty path v)

variable {f : Path → Json → Except ShapeError α} {element : Schema}

theorem detects_eachFrom (hf : ReadsBy f element) (n : Nat) (vs : List Json) :
    Detects (eachFrom path f n vs) fun e =>
      ∃ k v, vs[k]? = some v ∧ element.Faulty (path ++ [.index (n + k)]) v e := by
  induction vs generalizing n with
  | nil => exact .of_ok [] fun e ⟨k, v, hv, _⟩ => by simp at hv
  | cons v vs ih =>
    refine ((hf _ v).bind fun a => (ih (n + 1)).bind_pure (a :: ·)).congr fun e => ?_
    constructor
    · rintro (hfault | ⟨k, w, hw, hfault⟩)
      · exact ⟨0, v, rfl, hfault⟩
      · exact ⟨k + 1, w, hw, by rwa [Nat.add_right_comm] at hfault⟩
    · rintro ⟨_ | k, w, hw, hfault⟩
      · cases hw
        exact .inl hfault
      · exact .inr ⟨k, w, hw, by rwa [Nat.add_right_comm]⟩

/-- An array detects the faults of its elements, and a value that is no array is a fault itself. -/
theorem detects_elements (hf : ReadsBy f element) {shape : Shape} {v : Json}
    (hshape : v.toArray?.isSome = shape.recognizes v) :
    Detects (expect path shape v.toArray? >>= each path f)
      ((Schema.list shape element).Faulty path v) := by
  cases hfound : v.toArray? with
  | none =>
    refine .of_error (faulty_list_iff.2 (.inl ⟨rfl, fun hfits => ?_⟩))
    rw [hfound, Shape.fits_iff.1 hfits] at hshape
    cases hshape
  | some vs =>
    have hfits : shape.Fits v := Shape.fits_iff.2 (by rw [← hshape, hfound]; rfl)
    obtain rfl : v = .array vs := by cases v <;> simp_all [toArray?]
    have helements : Detects (eachFrom path f 0 vs) _ := detects_eachFrom hf 0 vs
    refine helements.congr fun e => ?_
    rw [faulty_list_iff]
    simp [hfits]

/-! ## Fields -/

/-- The faults in some fields of an object. -/
def FieldsFaulty (path : Path) (members : NameTable Json) (fields : List (String × Schema))
    (e : ShapeError) : Prop :=
  ∃ field ∈ fields, FieldFaulty path members field e

/-- What is read of a field detects the faults in it: nothing can be wrong with a field that is not
there. -/
theorem detects_field {x : Except ShapeError α} {s : Schema}
    (hnone : (Record.mk path members).field? name = none → ∃ a, x = .ok a)
    (hsome : ∀ v, (Record.mk path members).field? name = some v →
      Detects x (s.Faulty (path ++ [.field name]) v)) :
    Detects x (FieldFaulty path members (name, s)) := by
  cases hfield : (Record.mk path members).field? name with
  | none =>
    obtain ⟨a, rfl⟩ := hnone hfield
    refine .of_ok a ?_
    rintro e ⟨v, hfinds, hthere, -⟩
    rw [Record.field?_eq_some_iff.2 ⟨hfinds, hthere⟩] at hfield
    cases hfield
  | some v =>
    refine (hsome v hfield).congr fun e => ?_
    constructor
    · intro hfault
      obtain ⟨hfinds, hthere⟩ := Record.field?_eq_some_iff.1 hfield
      exact ⟨v, hfinds, hthere, hfault⟩
    · rintro ⟨w, hfinds, hthere, hfault⟩
      rw [Record.field?_eq_some_iff.2 ⟨hfinds, hthere⟩] at hfield
      cases hfield
      exact hfault

theorem detects_shaped {shape : Shape} {g : Json → Option α}
    (hshape : ∀ v, (g v).isSome = shape.recognizes v) :
    Detects (Record.shaped ⟨path, members⟩ name shape g)
      (FieldFaulty path members (name, .value shape)) := by
  refine detects_field (fun hnone => ⟨none, by rw [Record.shaped, hnone]⟩) fun v hsome => ?_
  rw [Record.shaped, hsome]
  exact (detects_expect (hshape v)).bind_pure some

theorem detects_integer :
    Detects (Record.integer ⟨path, members⟩ name)
      (FieldFaulty path members (name, .value .integer)) :=
  detects_shaped fun _ => rfl

theorem detects_string :
    Detects (Record.string ⟨path, members⟩ name)
      (FieldFaulty path members (name, .value .string)) :=
  detects_shaped fun _ => rfl

theorem detects_flag :
    Detects (Record.flag ⟨path, members⟩ name)
      (FieldFaulty path members (name, .value .boolean)) :=
  (detects_shaped fun _ => rfl).bind_pure (·.getD false)

theorem detects_list (hf : ReadsBy f element) :
    Detects (Record.list ⟨path, members⟩ name f)
      (FieldFaulty path members (name, .list .array element)) := by
  refine detects_field (fun hnone => ⟨[], ?_⟩) fun v hsome => ?_
  · rw [Record.list, Record.shaped, hnone]
    rfl
  · have hlist : Record.list ⟨path, members⟩ name f =
        expect (path ++ [.field name]) .array v.toArray? >>= each (path ++ [.field name]) f := by
      rw [Record.list, Record.shaped, hsome]
      simp only
      cases v.toArray? <;> rfl
    rw [hlist]
    exact detects_elements hf rfl

theorem detects_texts (rows : List (String × Json)) :
    Detects (Record.texts path rows) fun e =>
      ∃ row ∈ rows, e = ⟨path ++ [.field row.1], .string⟩ ∧ ¬ Shape.string.Fits row.2 := by
  induction rows with
  | nil => exact .of_ok [] fun e ⟨row, hrow, _⟩ => List.not_mem_nil hrow
  | cons row rows ih =>
    have hfirst : Detects (expect (path ++ [.field row.1]) .string row.2.toText?)
        ((Schema.value .string).Faulty (path ++ [.field row.1]) row.2) := detects_expect rfl
    refine (hfirst.bind fun text => ih.bind_pure ((row.1, text) :: ·)).congr fun e => ?_
    simp only [faulty_value_iff, List.mem_cons, exists_eq_or_imp]

theorem detects_languageText :
    Detects (Record.languageText ⟨path, members⟩ name)
      (FieldFaulty path members (name, .texts)) := by
  refine detects_field (fun hnone => ⟨.empty, ?_⟩) fun v hsome => ?_
  · rw [Record.languageText, Record.shaped, hnone]
    rfl
  · rw [Record.languageText, Record.shaped, hsome]
    cases v with
    | object table =>
      refine ((detects_texts (NameTable.ofList table).rows).bind_pure NameTable.ofList).congr
        fun e => ?_
      have hfits : Shape.languageMap.Fits (.object table) := .languageMap table
      simp [faulty_texts_iff, hfits, NameTable.get?_eq_some_iff, Record.fieldPath]
    | _ =>
      refine .of_error (faulty_texts_iff.2 (.inl ⟨rfl, fun hfits => ?_⟩))
      exact Bool.false_ne_true (Shape.fits_iff.1 hfits)

/-! ## Records -/

theorem detects_nothing (a : α) : Detects (pure a) (FieldsFaulty path members []) :=
  .of_ok a fun _ ⟨_, hfield, _⟩ => List.not_mem_nil hfield

/-- A field and the fields after it. -/
theorem detects_fields {β : Type} {x : Except ShapeError α} {g : α → Except ShapeError β}
    {s : Schema} {fields : List (String × Schema)}
    (hx : Detects x (FieldFaulty path members (name, s)))
    (hg : ∀ a, Detects (g a) (FieldsFaulty path members fields)) :
    Detects (x >>= g) (FieldsFaulty path members ((name, s) :: fields)) :=
  (hx.bind hg).congr fun e => by
    simp only [FieldsFaulty, List.mem_cons, exists_eq_or_imp]

/-- An object detects the faults of its fields, and a value that is no object is a fault itself. -/
theorem detects_record {v : Json} {g : Record → Except ShapeError α}
    {fields : List (String × Schema)}
    (hg : ∀ members, Detects (g ⟨path, members⟩) (FieldsFaulty path members fields)) :
    Detects (Record.ofJson path v >>= g) ((Schema.record fields).Faulty path v) := by
  cases v with
  | object members =>
    refine (hg (.ofList members)).congr fun e => ?_
    have hfits : Shape.object.Fits (.object members) := .object members
    simp [faulty_record_iff, hfits, FieldsFaulty]
  | _ =>
    refine .of_error (faulty_record_iff.2 (.inl ⟨rfl, fun hfits => ?_⟩))
    exact Bool.false_ne_true (Shape.fits_iff.1 hfits)

theorem detects_choice : ReadsBy Choice.ofJson Choice.schema :=
  fun _ _ => detects_record fun _ =>
    detects_fields detects_integer fun _ =>
    detects_fields detects_integer fun _ =>
    detects_fields detects_integer fun _ =>
    detects_nothing _

theorem detects_row : ReadsBy rowOfJson (.list .choiceRow Choice.schema) :=
  fun _ _ => detects_elements detects_choice rfl

theorem detects_stage : ReadsBy Stage.ofJson Stage.schema :=
  fun _ _ => detects_record fun _ =>
    detects_fields (detects_list detects_row) fun _ =>
    detects_fields detects_integer fun _ =>
    detects_fields detects_string fun _ =>
    detects_fields detects_integer fun _ =>
    detects_fields detects_flag fun _ =>
    detects_fields detects_flag fun _ =>
    detects_fields detects_languageText fun _ =>
    detects_nothing _

theorem detects_procedure : ReadsBy Procedure.ofJson Procedure.schema :=
  fun _ _ => detects_record fun _ =>
    detects_fields (detects_list detects_stage) fun _ =>
    detects_fields detects_integer fun _ =>
    detects_fields detects_string fun _ =>
    detects_fields detects_integer fun _ =>
    detects_fields detects_flag fun _ =>
    detects_fields detects_flag fun _ =>
    detects_fields detects_integer fun _ =>
    detects_fields detects_integer fun _ =>
    detects_nothing _

theorem detects_button : ReadsBy Button.ofJson Button.schema :=
  fun _ _ => detects_record fun _ =>
    detects_fields detects_integer fun _ =>
    detects_fields detects_string fun _ =>
    detects_fields detects_languageText fun _ =>
    detects_nothing _

theorem detects_language : ReadsBy languageOfJson (.value .string) :=
  fun _ _ => detects_expect rfl

/-- Reading a document detects the faults that its schema shows. -/
theorem detects_document (v : Json) : Detects (ofJson v) (schema.Faulty [] v) :=
  detects_record fun _ =>
    detects_fields (detects_list detects_language) fun _ =>
    detects_fields (detects_list detects_button) fun _ =>
    detects_fields (detects_list detects_procedure) fun _ =>
    detects_nothing _

/-! ## What an error says -/

/-- Steps in writing after others: a field stands after a dot, and an index in brackets. -/
inductive Path.ReadsOn : Path → String → Prop
  | done : ReadsOn [] ""
  | field {name : String} {steps : Path} {text : String} (h : ReadsOn steps text) :
      ReadsOn (.field name :: steps) ("." ++ name ++ text)
  | index {n : Nat} {steps : Path} {text : String} (h : ReadsOn steps text) :
      ReadsOn (.index n :: steps) ("[" ++ toString n ++ "]" ++ text)

/-- A path in writing: the root has a name, a field of the root stands after a dollar sign, and a
place further inside is told from a field of the root on. -/
inductive Path.Reads : Path → String → Prop
  | root : Reads [] "root"
  | member {name : String} : Reads [.field name] ("$." ++ name)
  | inside {name : String} {step : PathStep} {steps : Path} {text : String}
      (h : ReadsOn (step :: steps) text) : Reads (.field name :: step :: steps) (name ++ text)

/-- What is said of a place where another shape is wanted. -/
def Shape.complaint : Shape → String
  | .object => " must be an object"
  | .integer => ": expected integer"
  | .boolean => ": expected boolean"
  | .string => ": expected string"
  | .array => ": expected array"
  | .languageMap => ": expected language map"
  | .choiceRow => ": expected array of options"

theorem Path.readsOn_tailText (steps : Path) : ReadsOn steps (tailText steps) := by
  induction steps with
  | nil => exact .done
  | cons step steps ih =>
    rw [tailText, List.map_cons, String.join_cons]
    cases step with
    | field name => exact .field ih
    | index n => exact .index ih

theorem Path.ReadsOn.eq_tailText {steps : Path} {text : String} (h : ReadsOn steps text) :
    text = tailText steps := by
  induction h with
  | done => rfl
  | field _ ih | index _ ih =>
    rw [tailText, List.map_cons, String.join_cons, ih]
    rfl

/-- A path has one writing. -/
theorem Path.Reads.eq_render {path : Path} {printed : String} (h : path.Reads printed) :
    printed = path.render := by
  cases h with
  | root | member => rfl
  | inside h => exact congrArg _ h.eq_tailText

theorem Path.reads_render (name : String) (steps : Path) :
    Reads (.field name :: steps) (render (.field name :: steps)) := by
  cases steps with
  | nil => exact .member
  | cons step steps => exact .inside (readsOn_tailText _)

/-- The places that are looked at lie inside the place where looking starts. -/
theorem Schema.Looks.isPrefix {s : Schema} {v : Json} {place : Path} {wanted : Shape} {w : Json}
    (h : s.Looks path v place wanted w) : path <+: place := by
  induction h with
  | value | texts | list | record => exact List.prefix_refl _
  | text => exact List.prefix_append _ _
  | element _ _ ih | field _ _ _ _ ih => exact (List.prefix_append _ _).trans ih

/-- The places of a document have paths in writing. -/
theorem Schema.Looks.reads_render {v : Json} {place : Path} {wanted : Shape} {w : Json}
    (h : schema.Looks [] v place wanted w) : place.Reads place.render := by
  cases h with
  | record => exact .root
  | field _ _ _ hw =>
    obtain ⟨steps, rfl⟩ := hw.isPrefix
    exact Path.reads_render _ _

/-- The message of an error is the path in writing, and what is said of the place. -/
theorem ShapeError.message_eq (e : ShapeError) :
    e.message = e.path.render ++ e.expected.complaint := by
  obtain ⟨place, expected⟩ := e
  cases expected <;> rfl

/-- Reading a value gives a draft exactly if every place that the schema looks at has a value of the
shape that is wanted there. Otherwise the error names one of the places that have not, and says so:
its message tells the path, step by step, and the shape that is wanted. A text that is an object
once it is cleaned fails in this way only, and its error is the message for such a place. -/
theorem points_at_the_fault (v : Json) :
    ((∃ d, ofJson v = .ok d) ↔
      ∀ place wanted w, schema.Looks [] v place wanted w → wanted.Fits w) ∧
    (∀ e, ofJson v = .error e →
      ∃ w, schema.Looks [] v e.path e.expected w ∧ ¬ e.expected.Fits w ∧
        ∃ printed, e.path.Reads printed ∧ e.message = printed ++ e.expected.complaint) ∧
    ∀ (text : String) (members : List (String × Json)), v = .object members →
      readChars (clean text.toList) = .ok v →
        (∃ d, ofJson v = .ok d ∧ read text = .ok d) ∨
          ∃ place wanted w, schema.Looks [] v place wanted w ∧ ¬ wanted.Fits w ∧
            read text = .error (.misshapen ⟨place, wanted⟩) ∧
            ∃ printed, place.Reads printed ∧ (read text).mapError Error.message =
              .error ("invalid format: " ++ (printed ++ wanted.complaint)) := by
  have hdetects := detects_document v
  refine ⟨hdetects.succeeds_iff.trans ⟨fun h place wanted w hlooks => ?_, ?_⟩, fun e he => ?_, ?_⟩
  · exact Classical.byContradiction fun hfits => h ⟨place, wanted⟩ ⟨w, hlooks, hfits⟩
  · rintro h e ⟨w, hlooks, hfits⟩
    exact hfits (h _ _ w hlooks)
  · obtain ⟨w, hlooks, hfits⟩ := hdetects.fault e he
    exact ⟨w, hlooks, hfits, _, hlooks.reads_render, e.message_eq⟩
  · rintro text members rfl htext
    have hread : read text = (ofJson (.object members)).mapError .misshapen :=
      read_of_readChars htext
    cases hvalue : ofJson (.object members) with
    | ok d => exact .inl ⟨d, rfl, by rw [hread, hvalue]; rfl⟩
    | error e =>
      obtain ⟨w, hlooks, hfits⟩ := hdetects.fault e hvalue
      rw [hvalue] at hread
      refine .inr ⟨e.path, e.expected, w, hlooks, hfits, hread, _, hlooks.reads_render, ?_⟩
      rw [hread, ← e.message_eq]
      rfl

/-- A stage with a text for an id and an option of no shape, under names in other letter case. -/
def misshapenText : String :=
  "\x7b\"PROCEDURES\": [\x7b\"stages\": [\x7b\"id\": \"one\", \"Options\":
    [[\x7b\"buttonid\": true\x7d, null]]\x7d]\x7d]\x7d"

/-- The value of this text. -/
def misshapenMembers : List (String × Json) :=
  [("PROCEDURES", .array [.object [("stages",
    .array [.object [("id", .text "one"), ("Options",
      .array [.array [.object [("buttonid", .bool true)], .null]])]])]])]

/-- The rows of a stage are read before its fields, and the field is printed by the name that the
schema has for it. -/
theorem points_at_the_button :
    readChars (clean misshapenText.toList) = .ok (.object misshapenMembers) ∧
    (∃ w, schema.Looks [] (.object misshapenMembers)
        [.field "procedures", .index 0, .field "stages", .index 0, .field "options", .index 0,
          .index 0, .field "buttonId"] .integer w ∧ ¬ Shape.integer.Fits w) ∧
    (read misshapenText).mapError Error.message =
      .error "invalid format: procedures[0].stages[0].options[0][0].buttonId: expected integer" := by
  have hvalue : readChars (clean misshapenText.toList) = .ok (.object misshapenMembers) := by rfl
  have hread : read misshapenText = .error (.misshapen ⟨[.field "procedures", .index 0,
      .field "stages", .index 0, .field "options", .index 0, .index 0, .field "buttonId"],
      .integer⟩) := by decide +kernel
  rcases (points_at_the_fault _).2.2 misshapenText misshapenMembers rfl hvalue with
    ⟨d, -, hd⟩ | ⟨place, wanted, w, hlooks, hfits, hfault, printed, hprinted, hmessage⟩
  · rw [hread] at hd
    cases hd
  · rw [hread] at hfault
    cases hfault
    refine ⟨hvalue, ⟨w, hlooks, hfits⟩, hmessage.trans ?_⟩
    rw [hprinted.eq_render]
    decide +kernel

end Draft

end ButtonDialog
