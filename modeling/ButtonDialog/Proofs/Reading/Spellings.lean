import Mathlib.Data.List.Forall2
import ButtonDialog.Proofs.Reading.Decorations

/-! All spellings of a draft.

    One draft can be written in many ways. A name may be in any letter case, members may stand in
    any order and among others that no level knows, and what says nothing may be left out, written
    as `null`, or written in full. What a value must look like to spell a draft is stated here level
    by level, apart from how it is read; every such value is read as that draft. -/

namespace ButtonDialog

namespace Draft

open Json Json.Lenient

/-! ## Spellings -/

/-- The one value that an object has under a name, in any letter case, or none. -/
def HasMember (members : List (String × Json)) (name : String) (v : Option Json) : Prop :=
  (members.filter fun m => Text.sameLetters m.1 name).map Prod.snd = v.toList

/-- What may be found under the name of a field for a value of the field: what writes the value, and
for the value that says nothing also nothing or `null`. -/
inductive Tells {α : Type} (nothing : α) (Writes : α → Json → Prop) : α → Option Json → Prop
  | omitted : Tells nothing Writes nothing none
  | null : Tells nothing Writes nothing (some .null)
  | written {a : α} {v : Json} : Writes a v → Tells nothing Writes a (some v)

/-- The members of an object spell a field. -/
def HasField {α : Type} (nothing : α) (Writes : α → Json → Prop) (members : List (String × Json))
    (name : String) (a : α) : Prop :=
  ∃ v, HasMember members name v ∧ Tells nothing Writes a v

/-- The members spell an id or a reference, which any 64-bit integer may be. -/
def HasInteger : List (String × Json) → String → Option Int64 → Prop :=
  HasField none fun n v => ∃ i, n = some i ∧ v = .int64 i

/-- The members spell a title. -/
def HasTitle : List (String × Json) → String → Option String → Prop :=
  HasField none fun title v => ∃ s, title = some s ∧ v = .text s

/-- The members spell a flag. -/
def HasFlag : List (String × Json) → String → Bool → Prop := HasField false fun b v => v = .bool b

/-- The value is an object that spells a text: its languages, in their very spelling and in any
order, each with the text in it. -/
def WritesText (text : LanguageText) (v : Json) : Prop :=
  ∃ members, v = .object members ∧
    members.Perm (text.rows.map fun row => (row.1, .text row.2))

/-- The members spell a text. -/
def HasText : List (String × Json) → String → LanguageText → Prop := HasField .empty WritesText

/-- The value is an array that spells a list, element by element. -/
def WritesList {α : Type} (Writes : α → Json → Prop) (as : List α) (v : Json) : Prop :=
  ∃ vs, v = .array vs ∧ List.Forall₂ Writes as vs

/-- The members spell a list. -/
def HasList {α : Type} (Writes : α → Json → Prop) :
    List (String × Json) → String → List α → Prop :=
  HasField [] (WritesList Writes)

/-- The value is an object whose members spell what they are to spell. -/
def IsObject (Spell : List (String × Json) → Prop) (v : Json) : Prop :=
  ∃ members, v = .object members ∧ Spell members

/-- The members spell a choice. -/
structure Choice.Spelled (c : Choice) (members : List (String × Json)) : Prop where
  id : HasInteger members "id" c.id
  button : HasInteger members "buttonId" c.button
  next : HasInteger members "nextStageId" c.next

/-- The members spell a stage. -/
structure Stage.Spelled (s : Stage) (members : List (String × Json)) : Prop where
  id : HasInteger members "id" s.id
  title : HasTitle members "title" s.title
  previous : HasInteger members "previousStageId" s.previous
  removeToRoot : HasFlag members "removeToRootButton" s.removeToRoot
  removeToPrevious : HasFlag members "removeToPreviousButton" s.removeToPrevious
  text : HasText members "text" s.text
  rows : HasList (WritesList fun c => IsObject c.Spelled) members "options" s.rows

/-- The members spell a procedure. -/
structure Procedure.Spelled (p : Procedure) (members : List (String × Json)) : Prop where
  id : HasInteger members "id" p.id
  title : HasTitle members "title" p.title
  root : HasInteger members "rootStageId" p.root
  addToRoot : HasFlag members "addToRootButton" p.addToRoot
  addToPrevious : HasFlag members "addToPreviousButton" p.addToPrevious
  toRootButton : HasInteger members "toRootButtonId" p.toRootButton
  toPreviousButton : HasInteger members "toPreviousButtonId" p.toPreviousButton
  stages : HasList (fun s => IsObject s.Spelled) members "stages" p.stages

/-- The members spell a button. -/
structure Button.Spelled (b : Button) (members : List (String × Json)) : Prop where
  id : HasInteger members "id" b.id
  title : HasTitle members "title" b.title
  text : HasText members "text" b.text

/-- The members spell a draft. -/
structure Spelled (d : Draft) (members : List (String × Json)) : Prop where
  languages : HasList (fun title v => v = .text title) members "supportedLanguages" d.languages
  buttons : HasList (fun b => IsObject b.Spelled) members "buttons" d.buttons
  procedures : HasList (fun p => IsObject p.Spelled) members "procedures" d.procedures

/-- The value spells the draft. -/
def SpelledBy (d : Draft) (v : Json) : Prop := IsObject d.Spelled v

end Draft

/-! ## Tables of members -/

namespace NameTable

variable {α : Type}

/-- A new name enters rows without disturbing them. -/
theorem perm_insertRow {name : String} (value : α) {rows : List (String × α)}
    (h : name ∉ rows.map Prod.fst) : (insertRow name value rows).Perm ((name, value) :: rows) := by
  induction rows with
  | nil => exact .refl _
  | cons first rows ih =>
    rw [List.map_cons, List.mem_cons, not_or] at h
    unfold insertRow
    split
    · exact .refl _
    · rw [if_neg h.1]
      exact ((ih h.2).cons first).trans (.swap ..)

theorem perm_rows_foldl_insert {rows : List (String × α)} (t : NameTable α)
    (h : ((rows ++ t.rows).map Prod.fst).Nodup) :
    (rows.foldl (fun t row => t.insert row.1 row.2) t).rows.Perm (rows ++ t.rows) := by
  induction rows generalizing t with
  | nil => exact .refl _
  | cons first rows ih =>
    have hnew : first.1 ∉ t.rows.map Prod.fst := by
      rw [List.cons_append, List.map_cons, List.nodup_cons, List.map_append, List.mem_append] at h
      exact fun hmem => h.1 (.inr hmem)
    have hinsert : (rows ++ (t.insert first.1 first.2).rows).Perm (first :: rows ++ t.rows) :=
      ((perm_insertRow first.2 hnew).append_left rows).trans List.perm_middle
    exact (ih _ ((hinsert.map Prod.fst).nodup_iff.2 h)).trans hinsert

/-- The rows of a table in any order make the table again. -/
theorem ofList_eq_of_perm {rows : List (String × α)} {t : NameTable α} (h : rows.Perm t.rows) :
    ofList rows = t := by
  have hnodup : (rows.map Prod.fst).Nodup := (h.map Prod.fst).nodup_iff.2 t.nodup_names
  have hperm := @perm_rows_foldl_insert _ rows empty (by rwa [empty, List.append_nil])
  rw [empty, List.append_nil] at hperm
  refine NameTable.ext ((hperm.trans h).eq_of_pairwise ?_ (ofList rows).ascending t.ascending)
  exact fun r s _ _ hlt hgt => absurd (String.lt_trans hlt hgt) (String.lt_irrefl _)

/-- The rows of a table are those of the list that it was made of. -/
theorem mem_of_mem_ofList {rows : List (String × α)} {row : String × α}
    (h : row ∈ (ofList rows).rows) : row ∈ rows := by
  have hfold : ∀ (rows : List (String × α)) (t : NameTable α),
      row ∈ (rows.foldl (fun t row => t.insert row.1 row.2) t).rows →
        row ∈ t.rows ∨ row ∈ rows := by
    intro rows
    induction rows with
    | nil => exact fun t h => .inl h
    | cons first rows ih =>
      intro t h
      rcases ih _ h with h | h
      · rcases mem_insertRow h with rfl | h
        · exact .inr List.mem_cons_self
        · exact .inl h
      · exact .inr (List.mem_cons_of_mem _ h)
  exact (hfold rows empty h).resolve_left List.not_mem_nil

/-- Every name of the list has a row in the table that is made of it. -/
theorem contains_ofList {rows : List (String × α)} {name : String} :
    (ofList rows).contains name = true ↔ name ∈ rows.map Prod.fst := by
  have hfold : ∀ (rows : List (String × α)) (t : NameTable α),
      (rows.foldl (fun t row => t.insert row.1 row.2) t).contains name = true ↔
        t.contains name = true ∨ name ∈ rows.map Prod.fst := by
    intro rows
    induction rows with
    | nil => simp
    | cons first rows ih =>
      intro t
      rw [List.foldl_cons, ih, contains_insert, List.map_cons, List.mem_cons, or_assoc]
  exact (hfold rows empty).trans (or_iff_right Bool.false_ne_true)

end NameTable

/-! ## Reading what is spelled -/

namespace Draft

open Checks Json Json.Lenient

variable {α : Type} {members : List (String × Json)} {name : String} {path : Path}

/-- A member is found under its name, whatever other members there are. -/
theorem HasMember.find? {v : Option Json} (h : HasMember members name v) :
    ((NameTable.ofList members).rows.find? fun m => Text.sameLetters m.1 name).map Prod.snd =
      v := by
  have hfound : ∀ m ∈ members, Text.sameLetters m.1 name = true → v = some m.2 := by
    intro m hm hname
    have hmem : m ∈ members.filter fun m => Text.sameLetters m.1 name :=
      List.mem_filter.2 ⟨hm, hname⟩
    have hvalue := List.mem_map_of_mem (f := Prod.snd) hmem
    rwa [h, Option.mem_toList] at hvalue
  cases hfind : (NameTable.ofList members).rows.find? fun m => Text.sameLetters m.1 name with
  | some m =>
    have hm := NameTable.mem_of_mem_ofList (List.mem_of_find?_eq_some hfind)
    have hname := List.find?_some hfind
    exact (hfound m hm hname).symm
  | none =>
    have hnone : members.filter (fun m => Text.sameLetters m.1 name) = [] := by
      refine List.filter_eq_nil_iff.2 fun m hm hname => ?_
      have hrow := NameTable.contains_ofList.2 (List.mem_map_of_mem (f := Prod.fst) hm)
      obtain ⟨row, hrow, hsame⟩ := List.mem_map.1 (NameTable.mem_names_iff.2 hrow)
      exact List.find?_eq_none.1 hfind row hrow (hsame ▸ hname)
    rw [HasMember, hnone] at h
    exact (Option.toList_eq_nil_iff.1 h.symm).symm

/-- A member is the one under a name if it alone has the name, in any letters. -/
theorem HasMember.of_getElem? {m : String × Json} (k : Nat) (hk : members[k]? = some m)
    (hname : Text.sameLetters m.1 name = true)
    (hothers : ∀ other ∈ members.eraseIdx k, ¬ Text.sameLetters other.1 name = true) :
    HasMember members name (some m.2) := by
  obtain ⟨hlt, rfl⟩ := List.getElem?_eq_some_iff.1 hk
  rw [List.eraseIdx_eq_take_drop_succ, List.forall_mem_append] at hothers
  have hsplit : members = members.take k ++ members[k] :: members.drop (k + 1) := by
    rw [← List.drop_eq_getElem_cons, List.take_append_drop]
  have hbefore := List.filter_eq_nil_iff.2 hothers.1
  have hafter := List.filter_eq_nil_iff.2 hothers.2
  have hthis : [members[k]].filter (fun m => Text.sameLetters m.1 name) = [members[k]] :=
    List.filter_eq_self.2 (by simpa using hname)
  have hone : members.filter (fun m => Text.sameLetters m.1 name) = [members[k]] := by
    conv_lhs => rw [hsplit, ← List.singleton_append]
    rw [List.filter_append, List.filter_append, hbefore, hthis, hafter]
    rfl
  rw [HasMember, hone]
  rfl

theorem HasMember.of_forall_not
    (hothers : ∀ other ∈ members, ¬ Text.sameLetters other.1 name = true) :
    HasMember members name none := by
  rw [HasMember, List.filter_eq_nil_iff.2 hothers]
  rfl

/-- A field that is spelled is read in its shape: the value that says nothing may not be there, and
what writes a value is in the shape. -/
theorem HasField.shaped {β : Type} {nothing a : α} {Writes : α → Json → Prop}
    (f : Json → Option β) (Reads : α → β → Prop) (h : HasField nothing Writes members name a)
    (hnull : f .null = none) (hf : ∀ a v, Writes a v → ∃ b, f v = some b ∧ Reads a b)
    (shape : Shape) :
    (a = nothing ∧ Record.shaped ⟨path, .ofList members⟩ name shape f = .ok none) ∨
      ∃ b, Reads a b ∧ Record.shaped ⟨path, .ofList members⟩ name shape f = .ok (some b) := by
  obtain ⟨v, hmember, htells⟩ := h
  rw [Record.shaped, Record.field?, hmember.find?]
  cases htells with
  | omitted => exact .inl ⟨rfl, rfl⟩
  | null => exact .inl ⟨rfl, rfl⟩
  | @written _ v hwrites =>
    obtain ⟨b, hb, hreads⟩ := hf a v hwrites
    have hthere : v.isNull = false := by
      cases v with
      | null => rw [hnull] at hb; cases hb
      | _ => rfl
    refine .inr ⟨b, hreads, ?_⟩
    simp [Option.filter_some, hthere, hb, expect, Except.map]

/-- A value that may be missing is read if what it is written as is read. -/
theorem HasField.shaped_optional {β : Type} {write : β → Json} {a : Option β} (f : Json → Option β)
    (h : HasField none (fun a v => ∃ b, a = some b ∧ v = write b) members name a)
    (hnull : f .null = none) (hf : ∀ b, f (write b) = some b) (shape : Shape) :
    Record.shaped ⟨path, .ofList members⟩ name shape f = .ok a := by
  have hvalue : ∀ (a : Option β) v, (∃ b, a = some b ∧ v = write b) →
      ∃ b, f v = some b ∧ a = some b := by
    rintro _ _ ⟨b, rfl, rfl⟩
    exact ⟨b, hf b, rfl⟩
  rcases HasField.shaped f (fun a b => a = some b) h hnull hvalue shape with
    ⟨rfl, hread⟩ | ⟨b, rfl, hread⟩
  · exact hread
  · exact hread

theorem HasInteger.read {n : Option Int64} (h : HasInteger members name n) :
    Record.integer ⟨path, .ofList members⟩ name = .ok n :=
  HasField.shaped_optional Json.toInt64? h rfl Json.Number.toInt64?_ofInt64 .integer

theorem HasTitle.read {title : Option String} (h : HasTitle members name title) :
    Record.string ⟨path, .ofList members⟩ name = .ok title :=
  HasField.shaped_optional Json.toText? h rfl (fun _ => rfl) .string

theorem HasFlag.read {b : Bool} (h : HasFlag members name b) :
    Record.flag ⟨path, .ofList members⟩ name = .ok b := by
  rw [Record.flag]
  have hvalue : ∀ b v, v = Json.bool b → ∃ b', v.toBool? = some b' ∧ b = b' := by
    rintro b _ rfl
    exact ⟨b, rfl, rfl⟩
  rcases HasField.shaped Json.toBool? Eq h rfl hvalue .boolean with
    ⟨rfl, hread⟩ | ⟨b, rfl, hread⟩
  · rw [hread]; rfl
  · rw [hread]; rfl

theorem texts_of_rows (rows : List (String × String)) :
    Record.texts path (rows.map fun row => (row.1, .text row.2)) = .ok rows := by
  induction rows with
  | nil => rfl
  | cons row rows ih =>
    rw [List.map_cons, Record.texts, ih]
    rfl

/-- The value that writes a text has the rows of the text, each a text value. -/
theorem WritesText.toTable? {text : LanguageText} {v : Json} (h : WritesText text v) :
    ∃ table, v.toTable? = some table ∧
      table.rows = text.rows.map fun row => (row.1, .text row.2) := by
  obtain ⟨members, rfl, hperm⟩ := h
  have hascending : NameTable.Ascending (text.rows.map fun row => (row.1, Json.text row.2)) :=
    List.pairwise_map.2 text.ascending
  exact ⟨⟨_, hascending⟩, congrArg some (NameTable.ofList_eq_of_perm hperm), rfl⟩

theorem HasText.read {text : LanguageText} (h : HasText members name text) :
    Record.languageText ⟨path, .ofList members⟩ name = .ok text := by
  rw [Record.languageText]
  rcases HasField.shaped Json.toTable?
      (fun text table => table.rows = text.rows.map fun row => (row.1, Json.text row.2)) h rfl
      (fun _ _ => WritesText.toTable?) .languageMap with ⟨rfl, hread⟩ | ⟨table, hrows, hread⟩
  · rw [hread]; rfl
  · simp only [hread, ok_bind, hrows, texts_of_rows]
    exact congrArg Except.ok (NameTable.ofList_eq_of_perm (.refl _))

/-- Whatever writes a value is read as the value, at every place. -/
def Reads (f : Path → Json → Except ShapeError α) (Writes : α → Json → Prop) : Prop :=
  ∀ a v, Writes a v → ∀ path, f path v = .ok a

/-- Elements are read one by one, wherever they stand. -/
theorem eachFrom_eq_ok {Writes : α → Json → Prop} {f : Path → Json → Except ShapeError α}
    (hf : Reads f Writes) {as : List α} {vs : List Json} (h : List.Forall₂ Writes as vs) (n : Nat) :
    eachFrom path f n vs = .ok as := by
  induction h generalizing n with
  | nil => rfl
  | cons ha _ ih =>
    rw [eachFrom, hf _ _ ha, ih]
    rfl

theorem HasList.read {Writes : α → Json → Prop} {f : Path → Json → Except ShapeError α}
    (hf : Reads f Writes) {as : List α} (h : HasList Writes members name as) :
    Record.list ⟨path, .ofList members⟩ name f = .ok as := by
  rw [Record.list]
  have hvalue : ∀ as v, WritesList Writes as v →
      ∃ vs, v.toArray? = some vs ∧ List.Forall₂ Writes as vs := by
    rintro as _ ⟨vs, rfl, hvs⟩
    exact ⟨vs, rfl, hvs⟩
  rcases HasField.shaped Json.toArray? (List.Forall₂ Writes) h rfl hvalue .array with
    ⟨rfl, hread⟩ | ⟨vs, hvs, hread⟩
  · rw [hread]; rfl
  · rw [hread]
    exact eachFrom_eq_ok hf hvs 0

theorem Record.ofJson_object (path : Path) (members : List (String × Json)) :
    Record.ofJson path (.object members) = .ok ⟨path, .ofList members⟩ := rfl

theorem reads_choice : Reads Choice.ofJson fun c => IsObject c.Spelled := by
  rintro c _ ⟨members, rfl, h⟩ path
  simp only [Choice.ofJson, Record.ofJson_object, ok_bind, h.id.read, h.button.read, h.next.read]
  rfl

theorem reads_row : Reads rowOfJson (WritesList fun c => IsObject c.Spelled) := by
  rintro cs _ ⟨vs, rfl, hvs⟩ path
  exact eachFrom_eq_ok reads_choice hvs 0

theorem reads_stage : Reads Stage.ofJson fun s => IsObject s.Spelled := by
  rintro s _ ⟨members, rfl, h⟩ path
  simp only [Stage.ofJson, Record.ofJson_object, ok_bind, h.rows.read reads_row, h.id.read,
    h.title.read, h.previous.read, h.removeToRoot.read, h.removeToPrevious.read, h.text.read]
  rfl

theorem reads_procedure : Reads Procedure.ofJson fun p => IsObject p.Spelled := by
  rintro p _ ⟨members, rfl, h⟩ path
  simp only [Procedure.ofJson, Record.ofJson_object, ok_bind, h.stages.read reads_stage,
    h.id.read, h.title.read, h.root.read, h.addToRoot.read, h.addToPrevious.read,
    h.toRootButton.read, h.toPreviousButton.read]
  rfl

theorem reads_button : Reads Button.ofJson fun b => IsObject b.Spelled := by
  rintro b _ ⟨members, rfl, h⟩ path
  simp only [Button.ofJson, Record.ofJson_object, ok_bind, h.id.read, h.title.read, h.text.read]
  rfl

theorem reads_language : Reads languageOfJson fun title v => v = .text title := by
  rintro title _ rfl path
  rfl

/-- Every value that spells a draft is read as that draft, and so is every text that is such a value
once it is cleaned. -/
theorem reads_every_spelling {d : Draft} {v : Json} (h : d.SpelledBy v) :
    ofJson v = .ok d ∧
    ∀ text : String, readChars (clean text.toList) = .ok v → read text = .ok d := by
  obtain ⟨members, rfl, h⟩ := h
  have hvalue : ofJson (.object members) = .ok d := by
    simp only [ofJson, Record.ofJson_object, ok_bind, h.languages.read reads_language,
      h.buttons.read reads_button, h.procedures.read reads_procedure]
    rfl
  refine ⟨hvalue, fun text hread => ?_⟩
  obtain ⟨ps, -, hspells⟩ := exists_pieces_of_readChars hread
  have hne : ps ≠ [] := by
    rintro rfl
    exact readChars_ne_ok_of_nil hspells _ hread
  rw [read, readClean_spelled hspells hne, hread]
  change (ofJson (.object members)).mapError Error.misshapen = _
  rw [hvalue]
  rfl

/-- The members of a choice that leads nowhere, one of them unknown. -/
def oddChoice : List (String × Json) :=
  [("nextStageID", .null), ("next", .bool true), ("BUTTONID", int64 7), ("id", int64 (-3))]

/-- A text in three languages, two of which differ in the case of their letters alone. -/
def oddLanguages : LanguageText := .ofList [("en", "Here"), ("EN", ""), ("fr", "Ici")]

/-- The members of a stage without an id. -/
def oddStage : List (String × Json) :=
  [("TEXT", .object [("fr", .text "Ici"), ("EN", .text ""), ("en", .text "Here")]),
    ("removeToRootButton", .bool false), ("Title", .text "A"),
    ("Options", .array [.array [], .array [.object oddChoice]])]

/-- The members of a procedure, one of them unknown. -/
def oddProcedure : List (String × Json) :=
  [("rootstageid", int64 2), ("Stages", .array [.object oddStage]), ("AddToRootButton", .bool true),
    ("id", int64 1), ("toRootButton", .array [])]

/-- The members of a document, its procedures first. -/
def oddDocument : List (String × Json) :=
  [("Procedures", .array [.object oddProcedure]), ("", .null),
    ("supportedlanguages", .array [.text "en", .text "fr"])]

/-- What the members of the choice spell. -/
def Choice.odd : Choice := ⟨some (-3), some 7, none⟩

/-- What the members of the stage spell. -/
def Stage.odd : Stage := ⟨none, some "A", none, false, false, oddLanguages, [[], [.odd]]⟩

/-- What the members of the procedure spell. -/
def Procedure.odd : Procedure := ⟨some 1, none, some 2, true, false, none, none, [.odd]⟩

theorem spelled_oddChoice : Choice.odd.Spelled oddChoice where
  id := ⟨_, .of_getElem? 3 rfl (by decide +kernel) (by decide +kernel), .written ⟨_, rfl, rfl⟩⟩
  button := ⟨_, .of_getElem? 2 rfl (by decide +kernel) (by decide +kernel), .written ⟨_, rfl, rfl⟩⟩
  next := ⟨_, .of_getElem? 0 rfl (by decide +kernel) (by decide +kernel), .null⟩

theorem writesText_oddLanguages : WritesText oddLanguages
    (.object [("fr", .text "Ici"), ("EN", .text ""), ("en", .text "Here")]) := by
  have hrows : [("fr", "Ici"), ("EN", ""), ("en", "Here")].Perm oddLanguages.rows := by
    decide +kernel
  exact ⟨_, rfl, hrows.map fun row : String × String => (row.1, Json.text row.2)⟩

theorem spelled_oddStage : Stage.odd.Spelled oddStage where
  id := ⟨_, .of_forall_not (by decide +kernel), .omitted⟩
  title := ⟨_, .of_getElem? 2 rfl (by decide +kernel) (by decide +kernel), .written ⟨_, rfl, rfl⟩⟩
  previous := ⟨_, .of_forall_not (by decide +kernel), .omitted⟩
  removeToRoot := ⟨_, .of_getElem? 1 rfl (by decide +kernel) (by decide +kernel), .written rfl⟩
  removeToPrevious := ⟨_, .of_forall_not (by decide +kernel), .omitted⟩
  text := ⟨_, .of_getElem? 0 rfl (by decide +kernel) (by decide +kernel),
    .written writesText_oddLanguages⟩
  rows := ⟨_, .of_getElem? 3 rfl (by decide +kernel) (by decide +kernel),
    .written ⟨_, rfl, .cons ⟨_, rfl, .nil⟩
      (.cons ⟨_, rfl, .cons ⟨_, rfl, spelled_oddChoice⟩ .nil⟩ .nil)⟩⟩

theorem spelled_oddProcedure : Procedure.odd.Spelled oddProcedure where
  id := ⟨_, .of_getElem? 3 rfl (by decide +kernel) (by decide +kernel), .written ⟨_, rfl, rfl⟩⟩
  title := ⟨_, .of_forall_not (by decide +kernel), .omitted⟩
  root := ⟨_, .of_getElem? 0 rfl (by decide +kernel) (by decide +kernel), .written ⟨_, rfl, rfl⟩⟩
  addToRoot := ⟨_, .of_getElem? 2 rfl (by decide +kernel) (by decide +kernel), .written rfl⟩
  addToPrevious := ⟨_, .of_forall_not (by decide +kernel), .omitted⟩
  toRootButton := ⟨_, .of_forall_not (by decide +kernel), .omitted⟩
  toPreviousButton := ⟨_, .of_forall_not (by decide +kernel), .omitted⟩
  stages := ⟨_, .of_getElem? 1 rfl (by decide +kernel) (by decide +kernel),
    .written ⟨_, rfl, .cons ⟨_, rfl, spelled_oddStage⟩ .nil⟩⟩

theorem spelledBy_oddDocument : SpelledBy ⟨["en", "fr"], [], [.odd]⟩ (.object oddDocument) := by
  refine ⟨_, rfl, ⟨_, .of_getElem? 2 rfl (by decide +kernel) (by decide +kernel), ?_⟩,
    ⟨_, .of_forall_not (by decide +kernel), .omitted⟩,
    ⟨_, .of_getElem? 0 rfl (by decide +kernel) (by decide +kernel), ?_⟩⟩
  · exact .written ⟨_, rfl, .cons rfl (.cons rfl .nil)⟩
  · exact .written ⟨_, rfl, .cons ⟨_, rfl, spelled_oddProcedure⟩ .nil⟩

theorem spelledBy_nullButtons : SpelledBy ⟨[], [], []⟩ (.object [("Buttons", .null)]) :=
  ⟨_, rfl, ⟨_, .of_forall_not (by decide +kernel), .omitted⟩,
    ⟨_, .of_getElem? 0 rfl (by decide +kernel) (by decide +kernel), .null⟩,
    ⟨_, .of_forall_not (by decide +kernel), .omitted⟩⟩

/-- The odd members are read as what they spell, and a text that says nothing but that there are no
buttons is read as the draft that says nothing. -/
theorem reads_oddDocument :
    SpelledBy ⟨["en", "fr"], [], [.odd]⟩ (.object oddDocument) ∧
    ofJson (.object oddDocument) = .ok ⟨["en", "fr"], [], [.odd]⟩ ∧
    SpelledBy ⟨[], [], []⟩ (.object [("Buttons", .null)]) ∧
    read "\x7b\"Buttons\": null,\x7d // none" = .ok ⟨[], [], []⟩ := by
  refine ⟨spelledBy_oddDocument, (reads_every_spelling spelledBy_oddDocument).1,
    spelledBy_nullButtons, ?_⟩
  exact (reads_every_spelling spelledBy_nullButtons).2 _ rfl

end Draft

end ButtonDialog
