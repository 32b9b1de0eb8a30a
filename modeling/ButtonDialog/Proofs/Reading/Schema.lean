import ButtonDialog.Proofs.Reading.Spellings

/-! The schema of documents, as data.

    A schema says what a value should look like: one of a shape, or also something about its parts.
    Each place that it looks at has a value and a shape that is wanted there; a fault is a place
    with a value of another shape. Which member of an object a field is found under is told by names
    alone, without the search that finds it. -/

namespace ButtonDialog

namespace Draft

open Json

/-! ## Shapes of values -/

/-- A value of a shape. -/
inductive Shape.Fits : Shape → Json → Prop
  | object (members : List (String × Json)) : Fits .object (.object members)
  | integer (n : Int64) : Fits .integer (.int64 n)
  | boolean (b : Bool) : Fits .boolean (.bool b)
  | string (s : String) : Fits .string (.text s)
  | array (elements : List Json) : Fits .array (.array elements)
  | languageMap (members : List (String × Json)) : Fits .languageMap (.object members)
  | choiceRow (elements : List Json) : Fits .choiceRow (.array elements)

/-- Whether the reader of a shape finds something in a value. -/
def Shape.recognizes : Shape → Json → Bool
  | .object, v | .languageMap, v => v.toTable?.isSome
  | .integer, v => v.toInt64?.isSome
  | .boolean, v => v.toBool?.isSome
  | .string, v => v.toText?.isSome
  | .array, v | .choiceRow, v => v.toArray?.isSome

/-- The integers that are read are those of 64 bits. -/
theorem isSome_toInt64?_iff {v : Json} : v.toInt64?.isSome = true ↔ ∃ n : Int64, v = .int64 n := by
  constructor
  · intro h
    obtain ⟨n, hn⟩ := Option.isSome_iff_exists.1 h
    cases v with
    | number m =>
      cases m with
      | integer i => exact ⟨n, congrArg (Json.number ∘ Number.integer) (int64?_eq_some_iff.1 hn)⟩
      | scaled negative digits exponent => nomatch hn
    | _ => nomatch hn
  · rintro ⟨n, rfl⟩
    exact Option.isSome_of_eq_some (Number.toInt64?_ofInt64 n)

/-- A reader finds something in the values of its shape. -/
theorem Shape.fits_iff {shape : Shape} {v : Json} : shape.Fits v ↔ shape.recognizes v = true := by
  constructor
  · intro h
    cases h with
    | integer n => exact isSome_toInt64?_iff.2 ⟨n, rfl⟩
    | _ => rfl
  · intro h
    cases shape with
    | integer =>
      obtain ⟨n, rfl⟩ := isSome_toInt64?_iff.1 h
      exact .integer n
    | object | languageMap => cases v <;> first | constructor | nomatch h
    | boolean => cases v <;> first | constructor | nomatch h
    | string => cases v <;> first | constructor | nomatch h
    | array | choiceRow => cases v <;> first | constructor | nomatch h

/-! ## Fields of objects -/

/-- The value that is found under a name in any letter case: of the names in the table that are the
same up to case, the first in order counts. -/
def Finds (members : NameTable Json) (name : String) (v : Json) : Prop :=
  ∃ own, Text.sameLetters own name ∧ members.get? own = some v ∧
    ∀ other ∈ members.names, Text.sameLetters other name → own ≤ other

end Draft

namespace NameTable

variable {α : Type}

/-- Of rows in the order of their names, the first of some kind is the one with the least name. -/
theorem Ascending.find?_eq_some_iff {rows : List (String × α)} (h : Ascending rows)
    {p : String × α → Bool} {row : String × α} :
    rows.find? p = some row ↔ row ∈ rows ∧ p row = true ∧ ∀ r ∈ rows, p r = true → row.1 ≤ r.1 := by
  induction rows with
  | nil => simp
  | cons first rows ih =>
    obtain ⟨hfirst, hrows⟩ := List.pairwise_cons.1 h
    by_cases hp : p first = true
    · rw [List.find?_cons_of_pos hp, Option.some.injEq]
      constructor
      · rintro rfl
        refine ⟨List.mem_cons_self, hp, fun r hr _ => ?_⟩
        rcases List.mem_cons.1 hr with rfl | hr
        · exact String.le_refl _
        · exact Std.le_of_lt (hfirst r hr)
      · rintro ⟨hrow, -, hleast⟩
        rcases List.mem_cons.1 hrow with rfl | hrow
        · rfl
        · exact absurd (hfirst row hrow) (String.not_lt.2 (hleast first List.mem_cons_self hp))
    · rw [List.find?_cons_of_neg hp, ih hrows]
      constructor
      · rintro ⟨hrow, hname, hleast⟩
        refine ⟨List.mem_cons_of_mem _ hrow, hname, fun r hr hr' => ?_⟩
        rcases List.mem_cons.1 hr with rfl | hr
        · exact absurd hr' hp
        · exact hleast r hr hr'
      · rintro ⟨hrow, hname, hleast⟩
        rcases List.mem_cons.1 hrow with rfl | hrow
        · exact absurd hname hp
        · exact ⟨hrow, hname, fun r hr => hleast r (List.mem_cons_of_mem _ hr)⟩

/-- A name leads to a value exactly if it has a row with the value. -/
theorem get?_eq_some_iff {t : NameTable α} {name : String} {value : α} :
    t.get? name = some value ↔ (name, value) ∈ t.rows := by
  rw [get?, Option.map_eq_some_iff]
  constructor
  · rintro ⟨row, hfind, rfl⟩
    obtain ⟨hrow, hname, -⟩ := t.ascending.find?_eq_some_iff.1 hfind
    rwa [← beq_iff_eq.1 hname]
  · intro hrow
    refine ⟨_, t.ascending.find?_eq_some_iff.2 ⟨hrow, beq_self_eq_true _, fun r _ hr => ?_⟩, rfl⟩
    exact String.not_lt.1 (beq_iff_eq.1 hr ▸ String.lt_irrefl _)

end NameTable

namespace Draft

open Json

/-- The field of a record is the value that is found under its name, unless that is `null`. -/
theorem Record.field?_eq_some_iff {path : Path} {members : NameTable Json} {name : String}
    {v : Json} :
    (Record.mk path members).field? name = some v ↔ Finds members name v ∧ v ≠ .null := by
  have hnull : v.isNull = false ↔ v ≠ .null := by cases v <;> simp [isNull]
  rw [field?, Option.filter_eq_some_iff, Option.map_eq_some_iff, Bool.not_eq_true', hnull]
  refine and_congr_left fun _ => ?_
  constructor
  · rintro ⟨row, hfind, rfl⟩
    obtain ⟨hrow, hname, hleast⟩ := members.ascending.find?_eq_some_iff.1 hfind
    refine ⟨row.1, hname, NameTable.get?_eq_some_iff.2 hrow, fun other hother hsame => ?_⟩
    obtain ⟨r, hr, rfl⟩ := List.mem_map.1 hother
    exact hleast r hr hsame
  · rintro ⟨own, hname, hget, hleast⟩
    refine ⟨(own, v), members.ascending.find?_eq_some_iff.2
      ⟨NameTable.get?_eq_some_iff.1 hget, hname, fun r hr hsame => ?_⟩, rfl⟩
    exact hleast r.1 (List.mem_map_of_mem hr) hsame

/-! ## Schemas -/

/-- What a value should look like: a value of a shape, a language map whose values are texts, a list
of a shape with elements that are alike, or an object with fields, which may be absent. -/
inductive Schema where
  | value (shape : Shape)
  | texts
  | list (shape : Shape) (element : Schema)
  | record (fields : List (String × Schema))

/-- The schema of a choice. -/
def Choice.schema : Schema :=
  .record [("id", .value .integer), ("buttonId", .value .integer), ("nextStageId", .value .integer)]

/-- The schema of a stage. -/
def Stage.schema : Schema :=
  .record [("options", .list .array (.list .choiceRow Choice.schema)), ("id", .value .integer),
    ("title", .value .string), ("previousStageId", .value .integer),
    ("removeToRootButton", .value .boolean), ("removeToPreviousButton", .value .boolean),
    ("text", .texts)]

/-- The schema of a procedure. -/
def Procedure.schema : Schema :=
  .record [("stages", .list .array Stage.schema), ("id", .value .integer),
    ("title", .value .string), ("rootStageId", .value .integer),
    ("addToRootButton", .value .boolean), ("addToPreviousButton", .value .boolean),
    ("toRootButtonId", .value .integer), ("toPreviousButtonId", .value .integer)]

/-- The schema of a button. -/
def Button.schema : Schema :=
  .record [("id", .value .integer), ("title", .value .string), ("text", .texts)]

/-- The schema of a document. -/
def schema : Schema :=
  .record [("supportedLanguages", .list .array (.value .string)),
    ("buttons", .list .array Button.schema), ("procedures", .list .array Procedure.schema)]

namespace Schema

/-- The places that a schema looks at in the value of a place. Each has the path that leads to it,
the shape that is wanted there and the value that is there. A field that is absent or `null` has no
places, and the languages of a language map are told apart by case. -/
inductive Looks : Schema → Path → Json → Path → Shape → Json → Prop
  | value {shape : Shape} {path : Path} {v : Json} : Looks (.value shape) path v path shape v
  | texts {path : Path} {v : Json} : Looks .texts path v path .languageMap v
  | text {path : Path} {members : List (String × Json)} {language : String} {v : Json}
      (hv : (NameTable.ofList members).get? language = some v) :
      Looks .texts path (.object members) (path ++ [.field language]) .string v
  | list {shape : Shape} {element : Schema} {path : Path} {v : Json} :
      Looks (.list shape element) path v path shape v
  | element {shape : Shape} {element : Schema} {path : Path} {vs : List Json} {n : Nat} {v : Json}
      {place : Path} {wanted : Shape} {w : Json} (hv : vs[n]? = some v)
      (hw : Looks element (path ++ [.index n]) v place wanted w) :
      Looks (.list shape element) path (.array vs) place wanted w
  | record {fields : List (String × Schema)} {path : Path} {v : Json} :
      Looks (.record fields) path v path .object v
  | field {fields : List (String × Schema)} {path : Path} {members : List (String × Json)}
      {name : String} {s : Schema} {v : Json} {place : Path} {wanted : Shape} {w : Json}
      (hfield : (name, s) ∈ fields) (hv : Finds (.ofList members) name v) (hthere : v ≠ .null)
      (hw : Looks s (path ++ [.field name]) v place wanted w) :
      Looks (.record fields) path (.object members) place wanted w

/-- A place with a value of another shape than the schema wants there. -/
def Faulty (s : Schema) (path : Path) (v : Json) (e : ShapeError) : Prop :=
  ∃ w, s.Looks path v e.path e.expected w ∧ ¬ e.expected.Fits w

/-- A fault in a field of an object, which is there. -/
def FieldFaulty (path : Path) (members : NameTable Json) (field : String × Schema)
    (e : ShapeError) : Prop :=
  ∃ v, Finds members field.1 v ∧ v ≠ .null ∧ field.2.Faulty (path ++ [.field field.1]) v e

variable {shape : Shape} {path : Path} {v : Json} {e : ShapeError}

theorem faulty_value_iff :
    (value shape).Faulty path v e ↔ e = ⟨path, shape⟩ ∧ ¬ shape.Fits v := by
  constructor
  · rintro ⟨w, hlooks, hfits⟩
    obtain ⟨place, wanted⟩ := e
    cases hlooks
    exact ⟨rfl, hfits⟩
  · rintro ⟨rfl, hfits⟩
    exact ⟨v, .value, hfits⟩

theorem faulty_texts_iff :
    texts.Faulty path v e ↔ (e = ⟨path, .languageMap⟩ ∧ ¬ Shape.languageMap.Fits v) ∨
      ∃ members language w, v = .object members ∧
        (NameTable.ofList members).get? language = some w ∧
          e = ⟨path ++ [.field language], .string⟩ ∧ ¬ Shape.string.Fits w := by
  constructor
  · rintro ⟨w, hlooks, hfits⟩
    obtain ⟨place, wanted⟩ := e
    cases hlooks with
    | texts => exact .inl ⟨rfl, hfits⟩
    | text hw => exact .inr ⟨_, _, w, rfl, hw, rfl, hfits⟩
  · rintro (⟨rfl, hfits⟩ | ⟨members, language, w, rfl, hw, rfl, hfits⟩)
    · exact ⟨v, .texts, hfits⟩
    · exact ⟨w, .text hw, hfits⟩

theorem faulty_list_iff {element : Schema} :
    (list shape element).Faulty path v e ↔ (e = ⟨path, shape⟩ ∧ ¬ shape.Fits v) ∨
      ∃ vs n w, v = .array vs ∧ vs[n]? = some w ∧ element.Faulty (path ++ [.index n]) w e := by
  constructor
  · rintro ⟨w, hlooks, hfits⟩
    obtain ⟨place, wanted⟩ := e
    cases hlooks with
    | list => exact .inl ⟨rfl, hfits⟩
    | element hv hw => exact .inr ⟨_, _, _, rfl, hv, w, hw, hfits⟩
  · rintro (⟨rfl, hfits⟩ | ⟨vs, n, x, rfl, hx, w, hw, hfits⟩)
    · exact ⟨v, .list, hfits⟩
    · exact ⟨w, .element hx hw, hfits⟩

theorem faulty_record_iff {fields : List (String × Schema)} :
    (record fields).Faulty path v e ↔ (e = ⟨path, .object⟩ ∧ ¬ Shape.object.Fits v) ∨
      ∃ members, v = .object members ∧
        ∃ field ∈ fields, FieldFaulty path (.ofList members) field e := by
  constructor
  · rintro ⟨w, hlooks, hfits⟩
    obtain ⟨place, wanted⟩ := e
    cases hlooks with
    | record => exact .inl ⟨rfl, hfits⟩
    | field hfield hv hthere hw =>
      exact .inr ⟨_, rfl, _, hfield, _, hv, hthere, w, hw, hfits⟩
  · rintro (⟨rfl, hfits⟩ | ⟨members, rfl, field, hfield, x, hx, hthere, w, hw, hfits⟩)
    · exact ⟨v, .record, hfits⟩
    · exact ⟨w, .field hfield hx hthere hw, hfits⟩

end Schema

end Draft

end ButtonDialog
