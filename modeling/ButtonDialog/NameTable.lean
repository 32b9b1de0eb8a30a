/-! Tables from names to values.

    The rows of a table stand in the order of their names, and each name has one row. Names are
    ordered by code point, which is also the order of their UTF-8 bytes. Putting a value under a
    name replaces the row that was there. -/

namespace ButtonDialog

/-- Puts a row into rows that stand in the order of their names. -/
def NameTable.insertRow {α : Type} (name : String) (value : α) :
    List (String × α) → List (String × α)
  | [] => [(name, value)]
  | row :: rows =>
    if name < row.1 then (name, value) :: row :: rows
    else if name = row.1 then (name, value) :: rows
    else row :: insertRow name value rows

theorem NameTable.mem_insertRow {α : Type} {name : String} {value : α} {row : String × α}
    {rows : List (String × α)} (h : row ∈ NameTable.insertRow name value rows) :
    row = (name, value) ∨ row ∈ rows := by
  induction rows with
  | nil => simpa [insertRow] using h
  | cons first rows ih =>
    unfold insertRow at h
    split at h
    · simpa using h
    · split at h
      · rcases List.mem_cons.1 h with h | h
        · exact .inl h
        · exact .inr (List.mem_cons_of_mem _ h)
      · rcases List.mem_cons.1 h with h | h
        · exact .inr (h ▸ List.mem_cons_self)
        · exact (ih h).imp_right (List.mem_cons_of_mem _)

/-- Rows in the order of their names, no name twice. -/
def NameTable.Ascending {α : Type} (rows : List (String × α)) : Prop :=
  rows.Pairwise fun r s => r.1 < s.1

theorem NameTable.ascending_insertRow {α : Type} (name : String) (value : α)
    {rows : List (String × α)} (h : NameTable.Ascending rows) :
    NameTable.Ascending (NameTable.insertRow name value rows) := by
  induction rows with
  | nil => simp [insertRow, Ascending]
  | cons first rows ih =>
    have hfirst := List.pairwise_cons.1 h
    unfold insertRow
    split
    · rename_i hlt
      refine List.pairwise_cons.2 ⟨fun s hs => ?_, h⟩
      rcases List.mem_cons.1 hs with rfl | hs
      · exact hlt
      · exact String.lt_trans hlt (hfirst.1 s hs)
    · split
      · rename_i heq
        exact List.pairwise_cons.2 ⟨fun s hs => by simpa [heq] using hfirst.1 s hs, hfirst.2⟩
      · rename_i hlt hne
        refine List.pairwise_cons.2 ⟨fun s hs => ?_, ih hfirst.2⟩
        rcases NameTable.mem_insertRow hs with rfl | hs
        · have hle : first.1 ≤ name := String.not_lt.1 hlt
          exact Std.lt_of_le_of_ne hle fun h => hne h.symm
        · exact hfirst.1 s hs

/-- A table from names to values, its rows in the order of their names. -/
@[ext] structure NameTable (α : Type) where
  rows : List (String × α)
  ascending : NameTable.Ascending rows

namespace NameTable

variable {α β : Type}

/-- The table without rows. -/
def empty : NameTable α := ⟨[], List.Pairwise.nil⟩

instance : Inhabited (NameTable α) := ⟨empty⟩

instance [DecidableEq α] : DecidableEq (NameTable α) := fun s t =>
  decidable_of_iff (s.rows = t.rows) NameTable.ext_iff.symm

/-- The table with `value` under `name`, in place of what was there. -/
def insert (t : NameTable α) (name : String) (value : α) : NameTable α :=
  ⟨insertRow name value t.rows, ascending_insertRow name value t.ascending⟩

/-- The table of a list of rows; of two rows under one name the later one counts. -/
def ofList (rows : List (String × α)) : NameTable α :=
  rows.foldl (fun t row => t.insert row.1 row.2) empty

/-- The value under a name. -/
def get? (t : NameTable α) (name : String) : Option α :=
  (t.rows.find? fun row => row.1 == name).map (·.2)

/-- Whether there is a value under a name. -/
def contains (t : NameTable α) (name : String) : Bool := (t.get? name).isSome

/-- The names, in order. -/
def names (t : NameTable α) : List String := t.rows.map (·.1)

/-- The number of rows. -/
def size (t : NameTable α) : Nat := t.rows.length

@[simp] theorem get?_empty (name : String) : (empty : NameTable α).get? name = none := rfl

theorem find?_insertRow (name other : String) (value : α) (rows : List (String × α)) :
    ((insertRow name value rows).find? fun row => row.1 == other).map (·.2) =
      if name = other then some value else (rows.find? fun row => row.1 == other).map (·.2) := by
  induction rows with
  | nil => by_cases h : name = other <;> simp [insertRow, h]
  | cons first rows ih =>
    unfold insertRow
    split
    · by_cases h : name = other <;> simp [List.find?_cons, h]
    · split
      · rename_i heq
        by_cases h : name = other <;> simp [← heq, h]
      · rename_i hne
        by_cases h : first.1 = other
        · have : ¬ name = other := fun e => hne (e.trans h.symm)
          simp [h, this]
        · simpa [List.find?_cons, h] using ih

/-- After an insertion the new name has the new value and the others keep theirs. -/
@[simp] theorem get?_insert (t : NameTable α) (name other : String) (value : α) :
    (t.insert name value).get? other = if name = other then some value else t.get? other :=
  find?_insertRow name other value t.rows

theorem contains_insert (t : NameTable α) (name other : String) (value : α) :
    (t.insert name value).contains other = true ↔ t.contains other = true ∨ other = name := by
  by_cases h : name = other
  · simp [contains, h]
  · simp [contains, h, Ne.symm h]

theorem mem_names_iff {t : NameTable α} {name : String} :
    name ∈ t.names ↔ t.contains name = true := by
  simp [names, contains, get?, List.find?_isSome]

theorem nodup_names (t : NameTable α) : t.names.Nodup := by
  refine List.pairwise_map.2 (t.ascending.imp ?_)
  intro row row' hlt heq
  exact String.lt_irrefl _ (heq ▸ hlt)

theorem length_names (t : NameTable α) : t.names.length = t.size := List.length_map ..

/-- A table has as many rows as there are names in it. -/
theorem size_eq_length {t : NameTable α} {names : List String} (hnodup : names.Nodup)
    (hnames : ∀ name, name ∈ t.names ↔ name ∈ names) : t.size = names.length := by
  have hperm := (List.perm_ext_iff_of_nodup t.nodup_names hnodup).2 hnames
  rw [← length_names, hperm.length_eq]

end NameTable

end ButtonDialog
