import Mathlib.Data.List.Nodup
import ButtonDialog.Proofs.Reading.Schema

/-! Members that are `null`.

    A field is looked for by name first, and only the value that is found is taken for absent if it
    is `null`. So a `null` may go without a change wherever its object has no other member of that
    name, in other letters, that would then be found. Where it has one, the `null` hides it: it
    stands first in the order of names, and the object is read as if it had no member of that name
    in any letters. -/

namespace ButtonDialog

namespace NameTable

variable {α : Type}

/-- Of the rows of one name that are put into a table, the last one counts, and the name leads where
it did if there is none. -/
theorem get?_foldl_rows (rows : List (String × α)) (t : NameTable α) (name : String) :
    (rows.foldl (fun t row => t.insert row.1 row.2) t).get? name =
      ((rows.filter fun row => row.1 == name).getLast?.map Prod.snd).or (t.get? name) := by
  induction rows generalizing t with
  | nil => rfl
  | cons first rows ih =>
    rw [List.foldl_cons, ih, get?_insert]
    by_cases h : first.1 = name
    · rw [if_pos h, List.filter_cons_of_pos (by simpa using h), List.getLast?_cons]
      cases (rows.filter fun row => row.1 == name).getLast? <;> rfl
    · rw [if_neg h, List.filter_cons_of_neg (by simpa using h)]

/-- Of the rows of one name that a table is made of, the last one counts. -/
theorem get?_ofList (rows : List (String × α)) (name : String) :
    (ofList rows).get? name = (rows.filter fun row => row.1 == name).getLast?.map Prod.snd := by
  rw [ofList, get?_foldl_rows, get?_empty, Option.or_none]

/-- Without the rows of some names, the other names lead where they did. -/
theorem get?_ofList_filter (rows : List (String × α)) (p : String → Bool) (name : String) :
    (ofList (rows.filter fun row => p row.1)).get? name =
      if p name = true then (ofList rows).get? name else none := by
  rw [get?_ofList, get?_ofList, List.filter_filter]
  by_cases h : p name = true
  · rw [if_pos h]
    congr 3
    funext row
    by_cases hrow : row.1 = name
    · simp [hrow, h]
    · simp [hrow]
  · rw [if_neg h, List.filter_eq_nil_iff.2]
    · rfl
    · rintro row - hrow
      obtain ⟨hname, hp⟩ := Bool.and_eq_true_iff.1 hrow
      exact h (beq_iff_eq.1 hname ▸ hp)

/-- A name is in a table exactly if it leads somewhere. -/
theorem mem_names_iff_exists {t : NameTable α} {name : String} :
    name ∈ t.names ↔ ∃ value, t.get? name = some value := by
  rw [mem_names_iff, contains, Option.isSome_iff_exists]

end NameTable

namespace Draft

open Checks Json Json.Lenient

/-! ## Deleting members -/

/-- The members without those of a name in its very letters. -/
def without (members : List (String × Json)) (own : String) : List (String × Json) :=
  members.filter fun m => m.1 != own

/-- The members without those of a name in any letters. -/
def withoutNamesakes (members : List (String × Json)) (own : String) : List (String × Json) :=
  members.filter fun m => !Text.sameLetters m.1 own

/-- The object has a member of this name, in its very letters, and it is `null`. -/
def IsNull (members : List (String × Json)) (own : String) : Prop :=
  (NameTable.ofList members).get? own = some .null

instance (members : List (String × Json)) (own : String) : Decidable (IsNull members own) :=
  match h : (NameTable.ofList members).get? own with
  | some .null => .isTrue h
  | none | some (.bool _) | some (.number _) | some (.text _) | some (.array _)
  | some (.object _) => .isFalse fun hnull => nomatch h.symm.trans hnull

/-- No member of the same name in other letters stands before this one in the order of names. -/
def ComesFirst (members : List (String × Json)) (own : String) : Prop :=
  ∀ other ∈ (NameTable.ofList members).names, Text.sameLetters other own → own ≤ other

instance (members : List (String × Json)) (own : String) : Decidable (ComesFirst members own) :=
  inferInstanceAs (Decidable (∀ _ ∈ _, _ → _))

/-- The member comes first, and without it another one of its name, which is not `null`, would. -/
def Hides (members : List (String × Json)) (own : String) : Prop :=
  ComesFirst members own ∧ ∃ v, Finds (.ofList (without members own)) own v ∧ v ≠ .null

/-- One value is another without a member that is `null`, somewhere in an object that the schema
knows, under a name that the schema has there. The member hides nothing; or it comes first, and all
members of its name go with it. -/
inductive Schema.Lightens : Schema → Json → Json → Prop
  | null {fields : List (String × Schema)} {members : List (String × Json)} {own name : String}
      {s : Schema} (hfield : (name, s) ∈ fields) (hname : Text.sameLetters own name)
      (hnull : IsNull members own) (hhides : ¬ Hides members own) :
      Lightens (.record fields) (.object members) (.object (without members own))
  | namesakes {fields : List (String × Schema)} {members : List (String × Json)} {own name : String}
      {s : Schema} (hfield : (name, s) ∈ fields) (hname : Text.sameLetters own name)
      (hnull : IsNull members own) (hfirst : ComesFirst members own) :
      Lightens (.record fields) (.object members) (.object (withoutNamesakes members own))
  | field {fields : List (String × Schema)} {before after : List (String × Json)}
      {own name : String} {s : Schema} {v v' : Json} (hfield : (name, s) ∈ fields)
      (hname : Text.sameLetters own name) (hv : Lightens s v v') :
      Lightens (.record fields) (.object (before ++ (own, v) :: after))
        (.object (before ++ (own, v') :: after))
  | element {shape : Shape} {element : Schema} {before after : List Json} {v v' : Json}
      (hv : Lightens element v v') :
      Lightens (.list shape element) (.array (before ++ v :: after))
        (.array (before ++ v' :: after))

/-! ## What is found without them -/

section Finding

variable {members : List (String × Json)} {own name : String} {v : Json}

theorem get?_without (members : List (String × Json)) (own name : String) :
    (NameTable.ofList (without members own)).get? name =
      if name = own then none else (NameTable.ofList members).get? name := by
  rw [without, NameTable.get?_ofList_filter members fun name => name != own]
  by_cases h : name = own <;> simp [h]

theorem get?_withoutNamesakes (members : List (String × Json)) (own name : String) :
    (NameTable.ofList (withoutNamesakes members own)).get? name =
      if Text.sameLetters name own then none else (NameTable.ofList members).get? name := by
  rw [withoutNamesakes, NameTable.get?_ofList_filter members fun name => !Text.sameLetters name own]
  by_cases h : Text.sameLetters name own <;> simp [h]

/-- What is found under a name is found under it in any letters. -/
theorem Finds.respell {t : NameTable Json} {name' : String} (h : Finds t name v)
    (hsame : Text.sameLetters name name') : Finds t name' v := by
  have hletters := Text.sameLetters_iff.1 hsame
  simp only [Finds, Text.sameLetters_iff, hletters] at h ⊢
  exact h

/-- Where some members are gone, a value is still found if its member is still there. -/
theorem Finds.of_fewer {t t' : NameTable Json} (h : Finds t name v)
    (hfewer : ∀ other ∈ t'.names, other ∈ t.names)
    (hkept : ∀ found, Text.sameLetters found name → t.get? found = some v →
      (∀ other ∈ t.names, Text.sameLetters other name → found ≤ other) → t'.get? found = some v) :
    Finds t' name v := by
  obtain ⟨found, hname, hget, hleast⟩ := h
  exact ⟨found, hname, hkept found hname hget hleast,
    fun other hother => hleast other (hfewer other hother)⟩

theorem mem_names_without :
    name ∈ (NameTable.ofList (without members own)).names ↔
      name ∈ (NameTable.ofList members).names ∧ name ≠ own := by
  simp only [NameTable.mem_names_iff_exists, get?_without]
  by_cases h : name = own <;> simp [h]

theorem mem_names_withoutNamesakes :
    name ∈ (NameTable.ofList (withoutNamesakes members own)).names ↔
      name ∈ (NameTable.ofList members).names ∧ ¬ Text.sameLetters name own := by
  simp only [NameTable.mem_names_iff_exists, get?_withoutNamesakes]
  by_cases h : Text.sameLetters name own <;> simp [h]

/-- A value that is not `null` is found under a name exactly if it is found without a member that
is `null` and hides nothing. -/
theorem finds_without_iff (hnull : IsNull members own) (hhides : ¬ Hides members own)
    (hv : v ≠ .null) :
    Finds (.ofList members) name v ↔ Finds (.ofList (without members own)) name v := by
  constructor
  · intro h
    refine h.of_fewer (fun other hother => (mem_names_without.1 hother).1)
      fun found _ hget _ => ?_
    have hne : found ≠ own := by
      rintro rfl
      rw [hnull] at hget
      exact hv (Option.some.inj hget).symm
    rwa [get?_without, if_neg hne]
  · rintro h
    obtain ⟨found, hname, hget, hleast⟩ := id h
    rw [get?_without] at hget
    split at hget
    · cases hget
    refine ⟨found, hname, hget, fun other hother hsame => ?_⟩
    by_cases hne : other = own
    · -- were the `null` to come before what is found, it would hide it
      subst hne
      refine String.not_lt.1 fun hlt => hhides ⟨fun namesake hnamesake hlike => ?_, v, ?_, hv⟩
      · by_cases hother : namesake = other
        · exact hother ▸ String.le_refl _
        · have hletters := Text.sameLetters_iff.2
            ((Text.sameLetters_iff.1 hlike).trans (Text.sameLetters_iff.1 hsame))
          have hle := hleast namesake (mem_names_without.2 ⟨hnamesake, hother⟩) hletters
          exact String.le_trans (Std.le_of_lt hlt) hle
      · exact h.respell (Text.sameLetters_iff.2 (Text.sameLetters_iff.1 hsame).symm)
    · exact hleast other (mem_names_without.2 ⟨hother, hne⟩) hsame

/-- A value that is not `null` is found under a name exactly if it is found without the members of
a name of which the first is `null`. -/
theorem finds_withoutNamesakes_iff (hnull : IsNull members own) (hfirst : ComesFirst members own)
    (hv : v ≠ .null) :
    Finds (.ofList members) name v ↔ Finds (.ofList (withoutNamesakes members own)) name v := by
  constructor
  · intro h
    refine h.of_fewer (fun other hother => (mem_names_withoutNamesakes.1 hother).1)
      fun found hname hget hleast => ?_
    have hne : ¬ Text.sameLetters found own := by
      intro hlike
      have hown : own ∈ (NameTable.ofList members).names :=
        NameTable.mem_names_iff_exists.2 ⟨.null, hnull⟩
      have hletters := Text.sameLetters_iff.2
        ((Text.sameLetters_iff.1 hlike).symm.trans (Text.sameLetters_iff.1 hname))
      obtain rfl : found = own := String.le_antisymm (hleast own hown hletters)
        (hfirst found (NameTable.mem_names_iff_exists.2 ⟨v, hget⟩) hlike)
      rw [hnull] at hget
      exact hv (Option.some.inj hget).symm
    rwa [get?_withoutNamesakes, if_neg hne]
  · rintro ⟨found, hname, hget, hleast⟩
    rw [get?_withoutNamesakes] at hget
    split at hget
    · cases hget
    rename_i hne
    refine ⟨found, hname, hget, fun other hother hsame => ?_⟩
    refine hleast other (mem_names_withoutNamesakes.2 ⟨hother, fun hlike => hne ?_⟩) hsame
    rw [Text.sameLetters_iff] at hname hsame hlike ⊢
    exact (hname.trans hsame.symm).trans hlike

/-- Where the same values are found, apart from `null`, the fields are the same. -/
theorem field?_congr {path : Path} {t t' : NameTable Json}
    (h : ∀ v, v ≠ .null → (Finds t name v ↔ Finds t' name v)) :
    (Record.mk path t).field? name = (Record.mk path t').field? name := by
  refine Option.ext fun v => ?_
  rw [Record.field?_eq_some_iff, Record.field?_eq_some_iff]
  exact and_congr_left fun hv => h v hv

end Finding

/-! ## What is found in an object with a change inside -/

/-- A change inside one of the members that a table is made of changes at most the value under its
name. -/
theorem get?_ofList_middle (before after : List (String × Json)) (own : String) (v v' : Json)
    (name : String) :
    (NameTable.ofList (before ++ (own, v) :: after)).get? name =
        (NameTable.ofList (before ++ (own, v') :: after)).get? name ∨
      name = own ∧ (NameTable.ofList (before ++ (own, v) :: after)).get? name = some v ∧
        (NameTable.ofList (before ++ (own, v') :: after)).get? name = some v' := by
  simp only [NameTable.get?_ofList, List.filter_append, List.getLast?_append]
  by_cases hname : own = name
  · rw [List.filter_cons_of_pos (by simpa using hname),
      List.filter_cons_of_pos (by simpa using hname), List.getLast?_cons, List.getLast?_cons]
    cases (after.filter fun row => row.1 == name).getLast? with
    | none => exact .inr ⟨hname.symm, rfl, rfl⟩
    | some row => exact .inl rfl
  · rw [List.filter_cons_of_neg (by simpa using hname),
      List.filter_cons_of_neg (by simpa using hname)]
    exact .inl rfl

/-- The field of two tables is the same, or the one has a lighter value. -/
def Keeps (t t' : NameTable Json) (field : String × Schema) : Prop :=
  ∀ path, (Record.mk path t).field? field.1 = (Record.mk path t').field? field.1 ∨
    ∃ v v', (Record.mk path t).field? field.1 = some v ∧
      (Record.mk path t').field? field.1 = some v' ∧ field.2.Lightens v v'

theorem Schema.Lightens.ne_null {s : Schema} {v v' : Json} (h : s.Lightens v v') :
    v ≠ .null ∧ v' ≠ .null := by
  cases h <;> exact ⟨nofun, nofun⟩

theorem finds_congr {t t' : NameTable Json} (h : ∀ name, t.get? name = t'.get? name)
    {name : String} {v : Json} : Finds t name v ↔ Finds t' name v := by
  simp only [Finds, NameTable.mem_names_iff_exists, h]

/-- A change of the value under one name is a change of the field that is found there, if any. -/
theorem keeps_of_change {t t' : NameTable Json} {own : String} {v v' : Json} {s : Schema}
    (hothers : ∀ other, other ≠ own → t.get? other = t'.get? other) (hown : t.get? own = some v)
    (hown' : t'.get? own = some v') (hs : s.Lightens v v') {field : String × Schema}
    (hfield : Text.sameLetters own field.1 → field.2 = s) : Keeps t t' field := by
  have hnames : ∀ other, other ∈ t.names ↔ other ∈ t'.names := by
    intro other
    rw [NameTable.mem_names_iff_exists, NameTable.mem_names_iff_exists]
    by_cases hother : other = own
    · simp [hother, hown, hown']
    · rw [hothers other hother]
  by_cases hfound : Text.sameLetters own field.1 ∧
      ∀ other ∈ t.names, Text.sameLetters other field.1 → own ≤ other
  · obtain ⟨hname, hleast⟩ := hfound
    have hleast' : ∀ other ∈ t'.names, Text.sameLetters other field.1 → own ≤ other :=
      fun other hother => hleast other ((hnames other).2 hother)
    refine fun path => .inr ⟨v, v', ?_, ?_, (hfield hname).symm ▸ hs⟩
    · exact Record.field?_eq_some_iff.2 ⟨⟨own, hname, hown, hleast⟩, hs.ne_null.1⟩
    · exact Record.field?_eq_some_iff.2 ⟨⟨own, hname, hown', hleast'⟩, hs.ne_null.2⟩
  · refine fun path => .inl (field?_congr fun w _ => exists_congr fun found => ?_)
    by_cases hne : found = own
    · subst hne
      constructor
      · rintro ⟨hname, -, hleast⟩
        exact absurd ⟨hname, hleast⟩ hfound
      · rintro ⟨hname, -, hleast⟩
        exact absurd ⟨hname, fun other hother => hleast other ((hnames other).1 hother)⟩ hfound
    · simp only [hothers found hne, hnames]

/-- Of fields with different names, in whatever letters, those of one name are one. -/
theorem eq_of_sameLetters {fields : List (String × Schema)}
    (hdistinct : (fields.map fun field => Text.smallLetters field.1).Nodup)
    {field field' : String × Schema} (h : field ∈ fields) (h' : field' ∈ fields)
    (hsame : Text.sameLetters field.1 field'.1) : field = field' :=
  List.inj_on_of_nodup_map hdistinct h h' (Text.sameLetters_iff.1 hsame)

/-- An object that has become lighter has the same fields, or lighter ones. -/
theorem keeps_of_lightens {fields : List (String × Schema)}
    (hdistinct : (fields.map fun field => Text.smallLetters field.1).Nodup) {v v' : Json}
    (h : (Schema.record fields).Lightens v v') :
    ∃ members members', v = .object members ∧ v' = .object members' ∧
      ∀ field ∈ fields, Keeps (.ofList members) (.ofList members') field := by
  cases h with
  | null hfield hname hnull hhides =>
    exact ⟨_, _, rfl, rfl, fun field _ path =>
      .inl (field?_congr fun w hw => finds_without_iff hnull hhides hw)⟩
  | namesakes hfield hname hnull hfirst =>
    exact ⟨_, _, rfl, rfl, fun field _ path =>
      .inl (field?_congr fun w hw => finds_withoutNamesakes_iff hnull hfirst hw)⟩
  | @field _ before after own name s v v' hfield hname hv =>
    refine ⟨_, _, rfl, rfl, fun other hother => ?_⟩
    have hmiddle := get?_ofList_middle before after own v v'
    rcases hmiddle own with hsame | ⟨-, hown, hown'⟩
    · refine fun path => .inl (field?_congr fun w _ => finds_congr fun found => ?_)
      by_cases hfound : found = own
      · rw [hfound, hsame]
      · exact (hmiddle found).resolve_right fun h => hfound h.1
    · refine keeps_of_change (fun found hfound => ?_) hown hown' hv fun hsame => ?_
      · exact (hmiddle found).resolve_right fun h => hfound h.1
      · rw [Text.sameLetters_iff] at hname hsame
        have hletters : Text.sameLetters other.1 name :=
          Text.sameLetters_iff.2 (hsame.symm.trans hname)
        exact congrArg Prod.snd (eq_of_sameLetters hdistinct hother hfield hletters)

/-! ## Reading is the same -/

/-- A reader gives the same for a value and a lighter one, at every place. -/
def Overlooks {α : Type} (f : Path → Json → Except ShapeError α) (s : Schema) : Prop :=
  ∀ v v', s.Lightens v v' → ∀ path, f path v = f path v'

section Readers

variable {α : Type} {path : Path} {t t' : NameTable Json} {name : String}
  {f : Path → Json → Except ShapeError α} {element : Schema}

theorem shaped_eq {shape : Shape} {g : Json → Option α}
    (h : (Record.mk path t).field? name = (Record.mk path t').field? name) :
    Record.shaped ⟨path, t⟩ name shape g = Record.shaped ⟨path, t'⟩ name shape g := by
  rw [Record.shaped, Record.shaped, h]
  rfl

theorem Keeps.shaped {wanted shape : Shape} {g : Json → Option α}
    (h : Keeps t t' (name, .value wanted)) :
    Record.shaped ⟨path, t⟩ name shape g = Record.shaped ⟨path, t'⟩ name shape g := by
  rcases h path with h | ⟨v, v', -, -, hlightens⟩
  · exact shaped_eq h
  · cases hlightens

theorem Keeps.integer (h : Keeps t t' (name, .value .integer)) :
    Record.integer ⟨path, t⟩ name = Record.integer ⟨path, t'⟩ name := h.shaped

theorem Keeps.string (h : Keeps t t' (name, .value .string)) :
    Record.string ⟨path, t⟩ name = Record.string ⟨path, t'⟩ name := h.shaped

theorem Keeps.flag (h : Keeps t t' (name, .value .boolean)) :
    Record.flag ⟨path, t⟩ name = Record.flag ⟨path, t'⟩ name := by
  rw [Record.flag, Record.flag, h.shaped]

theorem Keeps.languageText (h : Keeps t t' (name, .texts)) :
    Record.languageText ⟨path, t⟩ name = Record.languageText ⟨path, t'⟩ name := by
  rcases h path with h | ⟨v, v', -, -, hlightens⟩
  · rw [Record.languageText, Record.languageText, shaped_eq h]
    rfl
  · cases hlightens

theorem eachFrom_eq (hf : Overlooks f element) {v v' : Json} (hv : element.Lightens v v')
    (before after : List Json) (n : Nat) :
    eachFrom path f n (before ++ v :: after) = eachFrom path f n (before ++ v' :: after) := by
  induction before generalizing n with
  | nil => rw [List.nil_append, List.nil_append, eachFrom, eachFrom, hf v v' hv]
  | cons first before ih => rw [List.cons_append, List.cons_append, eachFrom, eachFrom, ih]

theorem Keeps.list (hf : Overlooks f element) (h : Keeps t t' (name, .list .array element)) :
    Record.list ⟨path, t⟩ name f = Record.list ⟨path, t'⟩ name f := by
  rcases h path with h | ⟨v, v', hv, hv', hlightens⟩
  · rw [Record.list, Record.list, shaped_eq h]
    rfl
  · rw [Record.list, Record.list, Record.shaped, Record.shaped, hv, hv']
    cases hlightens with
    | element hw => exact eachFrom_eq hf hw _ _ 0

end Readers

theorem overlooks_choice : Overlooks Choice.ofJson Choice.schema := by
  intro v v' h path
  obtain ⟨members, members', rfl, rfl, hkeeps⟩ := keeps_of_lightens (by decide +kernel) h
  simp only [List.forall_mem_cons] at hkeeps
  obtain ⟨hid, hbutton, hnext, -⟩ := hkeeps
  simp only [Choice.ofJson, Record.ofJson_object, ok_bind, hid.integer, hbutton.integer,
    hnext.integer]

theorem overlooks_row : Overlooks rowOfJson (.list .choiceRow Choice.schema) := by
  intro v v' h path
  cases h with
  | element hw => exact eachFrom_eq overlooks_choice hw _ _ 0

theorem overlooks_stage : Overlooks Stage.ofJson Stage.schema := by
  intro v v' h path
  obtain ⟨members, members', rfl, rfl, hkeeps⟩ := keeps_of_lightens (by decide +kernel) h
  simp only [List.forall_mem_cons] at hkeeps
  obtain ⟨hrows, hid, htitle, hprevious, hremoveToRoot, hremoveToPrevious, htext, -⟩ := hkeeps
  simp only [Stage.ofJson, Record.ofJson_object, ok_bind, hrows.list overlooks_row, hid.integer,
    htitle.string, hprevious.integer, hremoveToRoot.flag, hremoveToPrevious.flag,
    htext.languageText]

theorem overlooks_procedure : Overlooks Procedure.ofJson Procedure.schema := by
  intro v v' h path
  obtain ⟨members, members', rfl, rfl, hkeeps⟩ := keeps_of_lightens (by decide +kernel) h
  simp only [List.forall_mem_cons] at hkeeps
  obtain ⟨hstages, hid, htitle, hroot, haddToRoot, haddToPrevious, htoRoot, htoPrevious, -⟩ :=
    hkeeps
  simp only [Procedure.ofJson, Record.ofJson_object, ok_bind, hstages.list overlooks_stage,
    hid.integer, htitle.string, hroot.integer, haddToRoot.flag, haddToPrevious.flag,
    htoRoot.integer, htoPrevious.integer]

theorem overlooks_button : Overlooks Button.ofJson Button.schema := by
  intro v v' h path
  obtain ⟨members, members', rfl, rfl, hkeeps⟩ := keeps_of_lightens (by decide +kernel) h
  simp only [List.forall_mem_cons] at hkeeps
  obtain ⟨hid, htitle, htext, -⟩ := hkeeps
  simp only [Button.ofJson, Record.ofJson_object, ok_bind, hid.integer, htitle.string,
    htext.languageText]

theorem overlooks_language : Overlooks languageOfJson (.value .string) :=
  fun _ _ h => nomatch h

/-- A document is read as the same draft as a lighter one, or refused with the same error. -/
theorem ofJson_lighter {v v' : Json} (h : schema.Lightens v v') : ofJson v = ofJson v' := by
  obtain ⟨members, members', rfl, rfl, hkeeps⟩ := keeps_of_lightens (by decide +kernel) h
  simp only [List.forall_mem_cons] at hkeeps
  obtain ⟨hlanguages, hbuttons, hprocedures, -⟩ := hkeeps
  simp only [ofJson, Record.ofJson_object, ok_bind, hlanguages.list overlooks_language,
    hbuttons.list overlooks_button, hprocedures.list overlooks_procedure]

/-- Deleting a member that is `null` changes nothing, at any level and whatever other members there
are, unless the member hides another one of its name. A value and a lighter one are read as the same
draft, or refused with the same error, and so are texts that are these values once they are
cleaned. -/
theorem reads_lighter {v v' : Json} (h : schema.Lightens v v') :
    ofJson v = ofJson v' ∧
    ∀ text text' : String, readChars (clean text.toList) = .ok v →
      readChars (clean text'.toList) = .ok v' → read text = read text' := by
  have hvalue : ofJson v = ofJson v' := ofJson_lighter h
  refine ⟨hvalue, fun text text' htext htext' => ?_⟩
  obtain ⟨members, members', rfl, rfl, -⟩ := keeps_of_lightens (by decide +kernel) h
  rw [read_of_readChars htext, read_of_readChars htext']
  exact congrArg (Except.mapError Error.misshapen) hvalue

/-- A document of one stage with the given members. -/
def oneStage (members : List (String × Json)) : Json :=
  .object [("procedures", .array [.object [("Stages", .array [.object members])]])]

/-- A change of the stage is a change of the document. -/
theorem lightens_oneStage {members members' : List (String × Json)}
    (h : Stage.schema.Lightens (.object members) (.object members')) :
    schema.Lightens (oneStage members) (oneStage members') :=
  @Schema.Lightens.field _ [] [] "procedures" "procedures" _ _ _ (.tail _ (.tail _ (.head _))) rfl
    (@Schema.Lightens.element _ _ [] [] _ _ (@Schema.Lightens.field _ [] [] "Stages" "stages" _ _ _
      (.head _) rfl (@Schema.Lightens.element _ _ [] [] _ _ h)))

/-- A `null` that stands after another member of its name may go alone, and one that stands before
it may go with it. -/
theorem reads_lighter_title :
    ¬ Hides [("title", .null), ("Title", .text "One")] "title" ∧
    ofJson (oneStage [("title", .null), ("Title", .text "One")]) =
      ofJson (oneStage [("Title", .text "One")]) ∧
    read "\x7b\"procedures\":[\x7b\"Stages\":[\x7b\"title\":null,\"Title\":\"One\"\x7d]\x7d]\x7d" =
      read "\x7b\"procedures\":[\x7b\"Stages\":[\x7b\"Title\":\"One\"\x7d]\x7d]\x7d" ∧
    ofJson (oneStage [("Title", .null), ("title", .text "One")]) = ofJson (oneStage []) := by
  have hhides : ¬ Hides [("title", .null), ("Title", .text "One")] "title" := fun h =>
    absurd (h.1 "Title" (by decide +kernel) (by decide +kernel)) (by decide +kernel)
  have halone : Stage.schema.Lightens (.object [("title", .null), ("Title", .text "One")])
      (.object [("Title", .text "One")]) :=
    @Schema.Lightens.null _ _ "title" "title" _ (.tail _ (.tail _ (.head _))) rfl
      (by decide +kernel) hhides
  have htogether : Stage.schema.Lightens (.object [("Title", .null), ("title", .text "One")])
      (.object []) :=
    @Schema.Lightens.namesakes _ _ "Title" "title" _ (.tail _ (.tail _ (.head _))) rfl
      (by decide +kernel) (by decide +kernel)
  obtain ⟨hvalues, htexts⟩ := reads_lighter (lightens_oneStage halone)
  exact ⟨hhides, hvalues, htexts _ _ rfl rfl, (reads_lighter (lightens_oneStage htogether)).1⟩

/-- Deleting a member that is `null` is not enough where it hides another one: the button is read
without an id, and with the id 5 once the `null` is gone. -/
theorem null_hides_id :
    IsNull [("ID", .null), ("id", int64 5)] "ID" ∧ Text.sameLetters "ID" "id" ∧
    without [("ID", .null), ("id", int64 5)] "ID" = [("id", int64 5)] ∧
    ofJson (.object [("buttons", .array [.object [("ID", .null), ("id", int64 5)]])]) =
      .ok ⟨[], [⟨none, none, .empty⟩], []⟩ ∧
    ofJson (.object [("buttons", .array [.object [("id", int64 5)]])]) =
      .ok ⟨[], [⟨some 5, none, .empty⟩], []⟩ :=
  ⟨by decide +kernel, by decide +kernel, rfl, by decide +kernel, by decide +kernel⟩

end Draft

end ButtonDialog
