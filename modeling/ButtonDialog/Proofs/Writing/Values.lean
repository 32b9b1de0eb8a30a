import ButtonDialog.Proofs.Reading.Acceptance
import ButtonDialog.Proofs.Writing.Scalars

/-! Values in writing.

    The strict reader undoes the compact form: a value whose numbers are in range, and in which no
    more arrays and objects nest than the reader lets be open, is read back as it was written. The
    compact form gives the tokens of the value, one after the other, and the reader takes them. It
    has no control character, and so no line end. -/

namespace ButtonDialog.Json

open Lenient

/-- A value that can be read where `room` more arrays and objects may be open: no more than these
nest in it, and no number is out of range. -/
inductive Fits : Nat → Json → Prop
  | null {room : Nat} : Fits room .null
  | bool {room : Nat} (b : Bool) : Fits room (.bool b)
  | number {room : Nat} {n : Number} : n.outOfRange = false → Fits room (.number n)
  | text {room : Nat} (s : String) : Fits room (.text s)
  | array {room : Nat} {elements : List Json} :
    (∀ v ∈ elements, Fits room v) → Fits (room + 1) (.array elements)
  | object {room : Nat} {members : List (String × Json)} :
    (∀ m ∈ members, Fits room m.2) → Fits (room + 1) (.object members)

mutual

/-- The tokens of a value in writing. -/
def tokens : Json → List Token
  | .null => [.null]
  | .bool b => [.bool b]
  | .number n => [.number n]
  | .text s => [.text s]
  | .array [] => [.openArray, .closeArray]
  | .array (v :: elements) =>
    .openArray :: (tokens v ++ (elementTokens elements ++ [.closeArray]))
  | .object [] => [.openObject, .closeObject]
  | .object ((name, v) :: members) =>
    .openObject :: .text name :: .colon :: (tokens v ++ (memberTokens members ++ [.closeObject]))

/-- The tokens of elements after the first, each with its comma. -/
def elementTokens : List Json → List Token
  | [] => []
  | v :: elements => .comma :: (tokens v ++ elementTokens elements)

/-- The tokens of members after the first, each with its comma. -/
def memberTokens : List (String × Json) → List Token
  | [] => []
  | (name, v) :: members =>
    .comma :: .text name :: .colon :: (tokens v ++ memberTokens members)

end

theorem compactElements_eq_map (elements : List Json) :
    compactElements elements = elements.map compact := by
  induction elements with
  | nil => rfl
  | cons v elements ih => rw [compactElements, ih, List.map_cons]

/-- A member in the compact form. -/
def compactMember (m : String × Json) : List Char := quoted m.1 ++ ':' :: compact m.2

theorem compactMembers_eq_map (members : List (String × Json)) :
    compactMembers members = members.map compactMember := by
  induction members with
  | nil => rfl
  | cons m members ih => rw [compactMembers, ih, List.map_cons, compactMember]

theorem separated_cons (separator piece : List Char) (pieces : List (List Char)) :
    separated separator (piece :: pieces) = piece ++ pieces.flatMap (separator ++ ·) := by
  induction pieces generalizing piece with
  | nil => simp [separated]
  | cons next pieces ih =>
    have hnext := ih next
    unfold separated at hnext ⊢
    rw [List.intercalate_cons_cons, hnext, List.flatMap_cons, List.append_assoc, List.append_assoc]

/-- Characters make tokens wherever they stand, as long as no word goes on behind them. -/
def Makes (cs : List Char) (ts : List Token) : Prop :=
  ∀ rest, WordEnds rest →
    contents (lexemes (cs ++ rest)) = ts.map some ++ contents (lexemes rest)

theorem contents_mark {c : Char} (h : isMark c = true) (rest : List Char) :
    contents (lexemes (c :: rest)) = some (markToken c) :: contents (lexemes rest) := by
  rw [lexemes_go (enter_of_isMark h rest)]
  rfl

theorem wordEnds_mark {c : Char} (h : isMark c = true) (rest : List Char) :
    WordEnds (c :: rest) := by
  simp [WordEnds, isWordChar, h]

section Makes

variable {cs cs' : List Char} {ts ts' : List Token}

/-- Two stretches, where the second begins with a mark or is empty. -/
theorem Makes.append (h : Makes cs ts) (h' : Makes cs' ts')
    (hends : ∀ rest, WordEnds rest → WordEnds (cs' ++ rest)) : Makes (cs ++ cs') (ts ++ ts') := by
  intro rest hrest
  rw [List.append_assoc, h _ (hends rest hrest), h' rest hrest, List.map_append, List.append_assoc]

theorem Makes.mark {c : Char} (hc : isMark c = true) (h : Makes cs ts) :
    Makes (c :: cs) (markToken c :: ts) := by
  intro rest hrest
  rw [List.cons_append, contents_mark hc, h rest hrest]
  rfl

theorem Makes.nil : Makes [] [] := fun _ _ => rfl

theorem Makes.quoted (s : String) (h : Makes cs ts) : Makes (quoted s ++ cs) (.text s :: ts) := by
  intro rest hrest
  rw [List.append_assoc, contents_quoted, h rest hrest]
  rfl

end Makes

theorem wordEnds_flatMap_comma (pieces : List (List Char)) {rest : List Char}
    (h : WordEnds rest) : WordEnds (pieces.flatMap ([','] ++ ·) ++ rest) := by
  cases pieces with
  | nil => exact h
  | cons piece pieces => exact wordEnds_mark (by decide) _

theorem makes_elementTokens {elements : List Json}
    (h : ∀ v ∈ elements, Makes (compact v) (tokens v)) :
    Makes ((elements.map compact).flatMap ([','] ++ ·)) (elementTokens elements) := by
  induction elements with
  | nil => exact .nil
  | cons v elements ih =>
    obtain ⟨hv, helements⟩ := List.forall_mem_cons.1 h
    exact .mark (by decide) (hv.append (ih helements) fun _ => wordEnds_flatMap_comma _)

theorem makes_member {name : String} {v : Json} {cs : List Char} {ts : List Token}
    (h : Makes (compact v ++ cs) ts) :
    Makes (compactMember (name, v) ++ cs) (.text name :: .colon :: ts) := by
  have hcolon := Makes.quoted name (h.mark (c := ':') (by decide))
  rwa [compactMember, List.append_assoc]

theorem makes_memberTokens {members : List (String × Json)}
    (h : ∀ m ∈ members, Makes (compact m.2) (tokens m.2)) :
    Makes ((members.map compactMember).flatMap ([','] ++ ·)) (memberTokens members) := by
  induction members with
  | nil => exact .nil
  | cons m members ih =>
    obtain ⟨hv, hmembers⟩ := List.forall_mem_cons.1 h
    exact .mark (by decide) (makes_member
      (hv.append (ih hmembers) fun _ => wordEnds_flatMap_comma _))

/-- The compact form of a value makes its tokens. -/
theorem Fits.makes {room : Nat} {v : Json} (h : Fits room v) : Makes (compact v) (tokens v) := by
  induction h with
  | null => exact fun _ _ => rfl
  | bool b => cases b <;> exact fun _ _ => rfl
  | number hrange => exact fun _ hrest => Number.contents_render hrange hrest
  | text s => exact fun rest _ => contents_quoted s rest
  | @array room elements _ ih =>
    cases elements with
    | nil => exact .mark (by decide) (.mark (by decide) .nil)
    | cons v elements =>
      obtain ⟨hv, helements⟩ := List.forall_mem_cons.1 ih
      have hclose := (makes_elementTokens helements).append (.mark (c := ']') (by decide) .nil)
        fun rest _ => wordEnds_mark (by decide) rest
      have hall := hv.append hclose fun rest _ => by
        rw [List.append_assoc]
        exact wordEnds_flatMap_comma _ (wordEnds_mark (by decide) rest)
      rw [compact, compactElements_eq_map, List.map_cons, separated_cons, List.append_assoc]
      exact .mark (by decide) hall
  | @object room members _ ih =>
    cases members with
    | nil => exact .mark (by decide) (.mark (by decide) .nil)
    | cons m members =>
      obtain ⟨hv, hmembers⟩ := List.forall_mem_cons.1 ih
      have hclose := (makes_memberTokens hmembers).append (.mark (c := '\x7d') (by decide) .nil)
        fun rest _ => wordEnds_mark (by decide) rest
      have hall := hv.append hclose fun rest _ => by
        rw [List.append_assoc]
        exact wordEnds_flatMap_comma _ (wordEnds_mark (by decide) rest)
      rw [compact, compactMembers_eq_map, List.map_cons, separated_cons, List.append_assoc]
      exact .mark (by decide) (makes_member hall)

/-! ## Reading -/

/-- Where a value may start, the reader takes the tokens of this one, as long as there is room. -/
def Reads (room : Nat) (v : Json) : Prop :=
  ∀ {stack : List Frame} {w : Wanted} {more : List Token} {u : Json}, w.IsValue →
    stack.length + room ≤ maxDepth → Reading.Accepts ⟨stack, .separator v⟩ more u →
      Reading.Accepts ⟨stack, w⟩ (tokens v ++ more) u

section Reads

variable {room : Nat} {outer : List Frame} {v u : Json} {more : List Token}

/-- The elements after one that has been read. -/
theorem accepts_elementTokens {elements : List Json} (h : ∀ v ∈ elements, Reads room v)
    {taken : List Json} (hroom : outer.length + 1 + room ≤ maxDepth)
    (hmore : Reading.Accepts
      ⟨outer, .separator (.array (taken.reverse ++ v :: elements))⟩ more u) :
    Reading.Accepts ⟨.array taken :: outer, .separator v⟩
      (elementTokens elements ++ ([.closeArray] ++ more)) u := by
  induction elements generalizing taken v with
  | nil =>
    rw [← List.reverse_cons] at hmore
    exact .take .closeArray hmore
  | cons next elements ih =>
    obtain ⟨hnext, helements⟩ := List.forall_mem_cons.1 h
    rw [elementTokens, List.cons_append, List.append_assoc]
    refine .take .nextElement (hnext trivial hroom (ih helements ?_))
    rwa [List.reverse_cons, List.append_assoc]

/-- The members after one that has been read. -/
theorem accepts_memberTokens {members : List (String × Json)} (h : ∀ m ∈ members, Reads room m.2)
    {taken : List (String × Json)} {name : String} (hroom : outer.length + 1 + room ≤ maxDepth)
    (hmore : Reading.Accepts
      ⟨outer, .separator (.object (taken.reverse ++ (name, v) :: members))⟩ more u) :
    Reading.Accepts ⟨.object taken name :: outer, .separator v⟩
      (memberTokens members ++ ([.closeObject] ++ more)) u := by
  induction members generalizing taken name v with
  | nil =>
    rw [← List.reverse_cons] at hmore
    exact .take .closeObject hmore
  | cons next members ih =>
    obtain ⟨hnext, hmembers⟩ := List.forall_mem_cons.1 h
    rw [memberTokens, List.cons_append, List.cons_append, List.cons_append, List.append_assoc]
    refine .take .nextMember (.take .name (.take .colon (hnext trivial hroom (ih hmembers ?_))))
    rwa [List.reverse_cons, List.append_assoc]

end Reads

theorem Fits.reads {room : Nat} {v : Json} (h : Fits room v) : Reads room v := by
  induction h with
  | null => exact fun hw _ hmore => .take (.value hw .null) hmore
  | bool b => exact fun hw _ hmore => .take (.value hw (.bool b)) hmore
  | number _ => exact fun hw _ hmore => .take (.value hw (.number _)) hmore
  | text s => exact fun hw _ hmore => .take (.value hw (.text s)) hmore
  | @array room elements _ ih =>
    intro stack w more u hw hroom hmore
    have hopen : stack.length < maxDepth := by omega
    have hinside : stack.length + 1 + room ≤ maxDepth := by omega
    cases elements with
    | nil => exact .take (.openArray hw hopen) (.take .emptyArray hmore)
    | cons v elements =>
      obtain ⟨hv, helements⟩ := List.forall_mem_cons.1 ih
      rw [tokens, List.cons_append, List.append_assoc, List.append_assoc]
      exact .take (.openArray hw hopen)
        (hv trivial hinside (accepts_elementTokens helements hinside hmore))
  | @object room members _ ih =>
    intro stack w more u hw hroom hmore
    have hopen : stack.length < maxDepth := by omega
    have hinside : stack.length + 1 + room ≤ maxDepth := by omega
    cases members with
    | nil => exact .take (.openObject hw hopen) (.take .emptyObject hmore)
    | cons m members =>
      obtain ⟨hv, hmembers⟩ := List.forall_mem_cons.1 ih
      rw [tokens, List.cons_append, List.cons_append, List.cons_append, List.append_assoc,
        List.append_assoc]
      exact .take (.openObject hw hopen) (.take .firstName (.take .colon
        (hv trivial hinside (accepts_memberTokens hmembers hinside hmore))))

/-- A value that fits is read back from its compact form. -/
theorem Fits.read_render {v : Json} (h : Fits maxDepth v) : read v.render = .ok v := by
  have hmakes := h.makes [] (by simp [WordEnds])
  have haccepts : Reading.Accepts ⟨[], .value⟩ (tokens v ++ []) v :=
    h.reads trivial (by simp) .done
  rw [read, render, String.toList_ofList]
  refine readChars_eq_ok_iff.2 ⟨tokens v ++ [], ?_, haccepts⟩
  rw [List.append_nil] at hmakes ⊢
  rw [hmakes]
  exact List.append_nil _

/-! ## Values of the program -/

theorem fits_int64 {room : Nat} (n : Int64) : Fits room (.int64 n) :=
  .number (Number.outOfRange_ofInt64 n)

theorem fits_optional {α : Type} {room : Nat} {f : α → Json} (h : ∀ a, Fits room (f a)) :
    ∀ a : Option α, Fits room (.optional f a)
  | none => .null
  | some a => h a

theorem isNull_iff {v : Json} : v.isNull = true ↔ v = .null := by
  cases v <;> simp [isNull]

/-- A value that may be absent comes back, if nothing that is there is written as `null`. -/
theorem nullable?_optional {α : Type} {f : Json → Option α} {g : α → Json}
    (hf : ∀ a, f (g a) = some a) (hg : ∀ a, g a ≠ .null) (a : Option α) :
    (optional g a).nullable? f = some a := by
  cases a with
  | none => rfl
  | some a => rw [optional, nullable?, if_neg (mt isNull_iff.1 (hg a)), hf, Option.map_some]

/-! ## Control characters -/

theorem visible_separated {pieces : List (List Char)} (h : ∀ piece ∈ pieces, Visible piece) :
    Visible (separated [','] pieces) := by
  cases pieces with
  | nil => exact List.forall_mem_nil _
  | cons piece pieces =>
    obtain ⟨hpiece, hpieces⟩ := List.forall_mem_cons.1 h
    rw [separated_cons]
    refine visible_append.2 ⟨hpiece, fun c hc => ?_⟩
    obtain ⟨next, hnext, hc⟩ := List.mem_flatMap.1 hc
    rcases List.mem_cons.1 hc with rfl | hc
    · decide
    · exact hpieces next hnext c hc

mutual

/-- No control character stands in the compact form. -/
theorem visible_compact : ∀ v : Json, Visible (compact v)
  | .null => by simp [Visible, compact]
  | .bool b => by cases b <;> simp [Visible, compact]
  | .number n => n.visible_render
  | .text s => visible_quoted s
  | .array elements => by
    rw [compact]
    exact visible_cons.2 ⟨by decide, visible_append.2
      ⟨visible_separated (visible_compactElements elements), by simp [Visible]⟩⟩
  | .object members => by
    rw [compact]
    exact visible_cons.2 ⟨by decide, visible_append.2
      ⟨visible_separated (visible_compactMembers members), by simp [Visible]⟩⟩

theorem visible_compactElements : ∀ elements : List Json,
    ∀ piece ∈ compactElements elements, Visible piece
  | [] => List.forall_mem_nil _
  | v :: elements => by
    rw [compactElements]
    exact List.forall_mem_cons.2 ⟨visible_compact v, visible_compactElements elements⟩

theorem visible_compactMembers : ∀ members : List (String × Json),
    ∀ piece ∈ compactMembers members, Visible piece
  | [] => List.forall_mem_nil _
  | (name, v) :: members => by
    rw [compactMembers]
    exact List.forall_mem_cons.2 ⟨visible_append.2 ⟨visible_quoted name,
      visible_cons.2 ⟨by decide, visible_compact v⟩⟩, visible_compactMembers members⟩

end

/-- A value in the compact form stays on one line. -/
theorem lineEnd_notMem_render (v : Json) : '\n' ∉ v.render.toList := by
  intro h
  rw [render, String.toList_ofList] at h
  have hvisible := visible_compact v '\n' h
  contradiction

end ButtonDialog.Json
