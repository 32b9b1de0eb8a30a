import ButtonDialog.Graph.Compile

/-! What layouts show of rows of choices.

    A stage has a layout in the languages that any of its choices has a label in. Where all choices
    have labels, the buttons of the layout stand where the choices stand, once the rows without
    choices are left out. -/

namespace ButtonDialog

/-- What stands in a grid, at a row and a place in the row. -/
def gridAt? {α : Type} (rows : List (List α)) (i j : Nat) : Option α :=
  rows[i]?.bind fun row => row[j]?

namespace NameTable

variable {α : Type}

theorem get?_foldl_insert (names : List String) (f : String → α) (t : NameTable α)
    (name : String) :
    ((names.map fun n => (n, f n)).foldl (fun t row => t.insert row.1 row.2) t).get? name =
      if name ∈ names then some (f name) else t.get? name := by
  induction names generalizing t with
  | nil => rfl
  | cons first names ih =>
    rw [List.map_cons, List.foldl_cons, ih, get?_insert]
    by_cases hrest : name ∈ names
    · rw [if_pos hrest, if_pos (List.mem_cons_of_mem _ hrest)]
    · by_cases hfirst : first = name
      · rw [if_neg hrest, if_pos hfirst, hfirst, if_pos List.mem_cons_self]
      · have hnot : name ∉ first :: names := fun hmem =>
          (List.mem_cons.1 hmem).elim (fun heq => hfirst heq.symm) hrest
        rw [if_neg hrest, if_neg hfirst, if_neg hnot]

end NameTable

namespace Graph

variable {rows : List (List Choice)} {language : String}

/-- There is a layout for a language if any choice has a label in it. -/
theorem get?_layoutsOf (rows : List (List Choice)) (language : String) :
    (layoutsOf rows).get? language =
      if ∃ c ∈ rows.flatten, c.text.contains language = true then some (layoutIn rows language)
      else none := by
  rw [layoutsOf, NameTable.ofList, NameTable.get?_foldl_insert, NameTable.get?_empty]
  simp only [List.mem_flatMap, NameTable.mem_names_iff]

/-- Every choice of the rows has a label in the language. -/
def Labelled (rows : List (List Choice)) (language : String) : Prop :=
  ∀ row ∈ rows, ∀ c ∈ row, c.text.contains language = true

/-- The rows that have choices. -/
def shownRows (rows : List (List Choice)) : List (List Choice) :=
  rows.filter fun row => !row.isEmpty

theorem isSome_button?_iff {c : Choice} :
    (c.button? language).isSome = true ↔ c.text.contains language = true := by
  rw [Choice.button?, Option.isSome_map, NameTable.contains]

theorem getElem?_filterMap {α β : Type} {f : α → Option β} {as : List α}
    (h : ∀ a ∈ as, (f a).isSome = true) (j : Nat) : (as.filterMap f)[j]? = as[j]?.bind f := by
  induction as generalizing j with
  | nil => rfl
  | cons a as ih =>
    obtain ⟨ha, has⟩ := List.forall_mem_cons.1 h
    obtain ⟨b, hb⟩ := Option.isSome_iff_exists.1 ha
    rw [List.filterMap_cons_some hb]
    cases j with
    | zero => exact hb.symm
    | succ j => exact ih has j

theorem rows_layoutIn (h : Labelled rows language) :
    (layoutIn rows language).rows =
      (shownRows rows).map fun row => row.filterMap fun c => c.button? language := by
  have hsame : ∀ row ∈ rows,
      ((fun row => !row.isEmpty) ∘ fun row => row.filterMap fun c => c.button? language) row =
        !row.isEmpty := by
    intro row hrow
    cases row with
    | nil => rfl
    | cons c row =>
      obtain ⟨b, hb⟩ := Option.isSome_iff_exists.1
        (isSome_button?_iff.2 (h _ hrow c List.mem_cons_self))
      rw [Function.comp_apply,
        List.filterMap_cons_some (f := fun c : Choice => c.button? language) hb]
      rfl
  rw [layoutIn, shownRows, List.filter_map, List.filter_congr hsame]

/-- A button of a layout is that of one of the choices. -/
theorem exists_choice_of_mem_layoutIn {button : Button}
    (h : button ∈ (layoutIn rows language).buttons) :
    ∃ c ∈ rows.flatten, c.button? language = some button := by
  obtain ⟨buttons, hbuttons, hmem⟩ := List.mem_flatten.1 h
  obtain ⟨row, hrow, rfl⟩ := List.mem_map.1 (List.mem_filter.1 hbuttons).1
  obtain ⟨c, hc, hbutton⟩ := List.mem_filterMap.1 hmem
  exact ⟨c, List.mem_flatten.2 ⟨row, hrow, hc⟩, hbutton⟩

/-- Where all choices have labels, every button of the layout is that of the choice at its place. -/
theorem exists_choice_of_button (h : Labelled rows language) {i j : Nat} {button : Button}
    (hbutton : gridAt? (layoutIn rows language).rows i j = some button) :
    ∃ c, gridAt? (shownRows rows) i j = some c ∧ c.button? language = some button := by
  rw [rows_layoutIn h, gridAt?, List.getElem?_map] at hbutton
  obtain ⟨row, hrow, hbutton⟩ := Option.bind_eq_some_iff.1 hbutton
  obtain ⟨cs, hcs, rfl⟩ := Option.map_eq_some_iff.1 hrow
  have hlabels : ∀ c ∈ cs, (c.button? language).isSome = true := fun c hc =>
    isSome_button?_iff.2 (h cs (List.mem_filter.1 (List.mem_of_getElem? hcs)).1 c hc)
  rw [getElem?_filterMap hlabels] at hbutton
  obtain ⟨c, hc, hbutton⟩ := Option.bind_eq_some_iff.1 hbutton
  exact ⟨c, Option.bind_eq_some_iff.2 ⟨cs, hcs, hc⟩, hbutton⟩

end Graph

end ButtonDialog
