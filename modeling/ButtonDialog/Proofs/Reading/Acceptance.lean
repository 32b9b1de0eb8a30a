import ButtonDialog.Proofs.Checks
import ButtonDialog.Proofs.Reading.Lexing

/-! What the strict reader accepts.

    Whether the reader accepts a text depends on its tokens alone. A text that it accepts has no
    broken lexeme, no closing bracket after a comma and no two scalars in a row, and so it can be
    cut into pieces in a strict order. -/

namespace ButtonDialog.Json

open Lenient

/-! ## What the reader does with a token -/

/-- The token is all of a value. -/
inductive Token.Writes : Token → Json → Prop
  | null : Writes .null .null
  | bool (b : Bool) : Writes (.bool b) (.bool b)
  | number (n : Number) : Writes (.number n) (.number n)
  | text (s : String) : Writes (.text s) (.text s)

/-- A value may start here. -/
def Wanted.IsValue : Wanted → Prop
  | .value | .firstElement => True
  | _ => False

/-- The reader takes a token and goes on as another reader. -/
inductive Reading.Takes : Reading → Token → Reading → Prop
  | value {stack : List Frame} {w : Wanted} {t : Token} {v : Json} :
    w.IsValue → t.Writes v → Takes ⟨stack, w⟩ t ⟨stack, .separator v⟩
  | openArray {stack : List Frame} {w : Wanted} : w.IsValue → stack.length < maxDepth →
    Takes ⟨stack, w⟩ .openArray ⟨.array [] :: stack, .firstElement⟩
  | openObject {stack : List Frame} {w : Wanted} : w.IsValue → stack.length < maxDepth →
    Takes ⟨stack, w⟩ .openObject ⟨stack, .firstName⟩
  | emptyArray {outer : List Frame} {elements : List Json} :
    Takes ⟨.array elements :: outer, .firstElement⟩ .closeArray ⟨outer, .separator (.array [])⟩
  | emptyObject {stack : List Frame} :
    Takes ⟨stack, .firstName⟩ .closeObject ⟨stack, .separator (.object [])⟩
  | firstName {stack : List Frame} {name : String} :
    Takes ⟨stack, .firstName⟩ (.text name) ⟨stack, .colon [] name⟩
  | name {stack : List Frame} {members : List (String × Json)} {name : String} :
    Takes ⟨stack, .name members⟩ (.text name) ⟨stack, .colon members name⟩
  | colon {stack : List Frame} {members : List (String × Json)} {name : String} :
    Takes ⟨stack, .colon members name⟩ .colon ⟨.object members name :: stack, .value⟩
  | nextElement {outer : List Frame} {elements : List Json} {v : Json} :
    Takes ⟨.array elements :: outer, .separator v⟩ .comma ⟨.array (v :: elements) :: outer, .value⟩
  | closeArray {outer : List Frame} {elements : List Json} {v : Json} :
    Takes ⟨.array elements :: outer, .separator v⟩ .closeArray
      ⟨outer, .separator (.array (v :: elements).reverse)⟩
  | nextMember {outer : List Frame} {members : List (String × Json)} {name : String} {v : Json} :
    Takes ⟨.object members name :: outer, .separator v⟩ .comma
      ⟨outer, .name ((name, v) :: members)⟩
  | closeObject {outer : List Frame} {members : List (String × Json)} {name : String} {v : Json} :
    Takes ⟨.object members name :: outer, .separator v⟩ .closeObject
      ⟨outer, .separator (.object ((name, v) :: members).reverse)⟩

theorem Reading.takes_of_takeValue {r r' : Reading} {l : Lexeme} (hw : r.wanted.IsValue)
    (h : r.takeValue l = .ok r') : ∃ t, l.content = .ok t ∧ r.Takes t r' := by
  rw [takeValue] at h
  have hnest {inside : Reading} (h : r.nest l inside = .ok r') :
      r.stack.length < maxDepth ∧ inside = r' := by
    rw [nest] at h
    split at h
    · exact ⟨‹_›, Except.ok.inj h⟩
    · cases h
  split at h
  · cases h
  · obtain rfl := Except.ok.inj h
    exact ⟨.null, ‹_›, .value hw .null⟩
  · obtain rfl := Except.ok.inj h
    exact ⟨.bool _, ‹_›, .value hw (.bool _)⟩
  · obtain rfl := Except.ok.inj h
    exact ⟨.number _, ‹_›, .value hw (.number _)⟩
  · obtain rfl := Except.ok.inj h
    exact ⟨.text _, ‹_›, .value hw (.text _)⟩
  · obtain ⟨hdepth, rfl⟩ := hnest h
    exact ⟨.openArray, ‹_›, .openArray hw hdepth⟩
  · obtain ⟨hdepth, rfl⟩ := hnest h
    exact ⟨.openObject, ‹_›, .openObject hw hdepth⟩
  · cases h

theorem Reading.text_of_takeName {r r' : Reading} {members : List (String × Json)} {l : Lexeme}
    (h : r.takeName members l = .ok r') :
    ∃ name, l.content = .ok (.text name) ∧ r' = ⟨r.stack, .colon members name⟩ := by
  rw [takeName] at h
  split at h
  · exact ⟨_, ‹_›, (Except.ok.inj h).symm⟩
  · cases h
  · cases h

/-- The reader takes a lexeme if it takes its token. -/
theorem Reading.take_eq_ok_iff {r r' : Reading} {l : Lexeme} :
    r.take l = .ok r' ↔ ∃ t, l.content = .ok t ∧ r.Takes t r' := by
  constructor
  · intro h
    obtain ⟨stack, w⟩ := r
    cases w with
    | value => exact takes_of_takeValue trivial h
    | firstElement =>
      simp only [take] at h
      split at h
      · obtain rfl := Except.ok.inj h
        exact ⟨.closeArray, ‹_›, .emptyArray⟩
      · exact takes_of_takeValue trivial h
    | firstName =>
      simp only [take] at h
      split at h
      · obtain rfl := Except.ok.inj h
        exact ⟨.closeObject, ‹_›, .emptyObject⟩
      · obtain ⟨name, hl, rfl⟩ := text_of_takeName h
        exact ⟨.text name, hl, .firstName⟩
    | name members =>
      obtain ⟨name, hl, rfl⟩ := text_of_takeName h
      exact ⟨.text name, hl, .name⟩
    | colon members name =>
      simp only [take] at h
      split at h
      · obtain rfl := Except.ok.inj h
        exact ⟨.colon, ‹_›, .colon⟩
      · cases h
    | separator v =>
      simp only [take] at h
      split at h
      · obtain rfl := Except.ok.inj h
        exact ⟨.comma, ‹_›, .nextElement⟩
      · obtain rfl := Except.ok.inj h
        exact ⟨.closeArray, ‹_›, .closeArray⟩
      · obtain rfl := Except.ok.inj h
        exact ⟨.comma, ‹_›, .nextMember⟩
      · obtain rfl := Except.ok.inj h
        exact ⟨.closeObject, ‹_›, .closeObject⟩
      · cases h
  · rintro ⟨t, hl, h⟩
    cases h with
    | @value stack w t v hw ht =>
      cases w <;> cases ht <;> simp_all [take, takeValue, Wanted.IsValue]
    | @openArray stack w hw hdepth =>
      cases w <;> simp_all [take, takeValue, nest, Wanted.IsValue]
    | @openObject stack w hw hdepth =>
      cases w <;> simp_all [take, takeValue, nest, Wanted.IsValue]
    | _ => simp [take, takeName, hl]

/-- The reader takes the tokens to the end, with a value then. -/
inductive Reading.Accepts : Reading → List Token → Json → Prop
  | done {v : Json} : Accepts ⟨[], .separator v⟩ [] v
  | take {r r' : Reading} {t : Token} {ts : List Token} {v : Json} :
    r.Takes t r' → r'.Accepts ts v → r.Accepts (t :: ts) v

theorem Reading.finish_eq_ok_iff {r : Reading} {v : Json} :
    r.finish = .ok v ↔ r = ⟨[], .separator v⟩ := by
  obtain ⟨stack, w⟩ := r
  cases w <;> cases stack <;> simp [finish]

theorem Reading.run_eq_ok_iff {r : Reading} {ls : List Lexeme} {v : Json} :
    r.run ls = .ok v ↔ ∃ ts, contents ls = ts.map some ∧ r.Accepts ts v := by
  induction ls generalizing r with
  | nil =>
    constructor
    · intro h
      obtain rfl := finish_eq_ok_iff.1 h
      exact ⟨[], rfl, .done⟩
    · rintro ⟨ts, hts, h⟩
      obtain rfl := List.map_eq_nil_iff.1 hts.symm
      cases h
      rfl
  | cons l ls ih =>
    have hrun : r.run (l :: ls) = .ok v ↔ ∃ r', r.take l = .ok r' ∧ r'.run ls = .ok v := by
      rw [run, List.foldlM_cons]
      cases r.take l <;> simp [run, bind, Except.bind]
    rw [hrun]
    constructor
    · rintro ⟨r', htake, hrest⟩
      obtain ⟨t, hl, ht⟩ := take_eq_ok_iff.1 htake
      obtain ⟨ts, hts, h⟩ := ih.1 hrest
      refine ⟨t :: ts, ?_, .take ht h⟩
      rw [contents, List.map_cons, List.map_cons, ← hts, hl]
      rfl
    · rintro ⟨ts, hts, h⟩
      cases h with
      | done => simp [contents] at hts
      | take ht h =>
        obtain ⟨hl, hls⟩ := List.cons.inj hts
        exact ⟨_, take_eq_ok_iff.2 ⟨_, Checks.toOption_eq_some_iff.1 hl, ht⟩, ih.2 ⟨_, hls, h⟩⟩

/-- A text is accepted for its tokens. -/
theorem readChars_eq_ok_iff {cs : List Char} {v : Json} :
    readChars cs = .ok v ↔
      ∃ ts, contents (lexemes cs) = ts.map some ∧ Reading.start.Accepts ts v := by
  rw [← Reading.run_eq_ok_iff, readChars]
  cases Reading.start.run (lexemes cs) <;> simp [Except.mapError]

/-! ## Tokens that are accepted -/

/-- The tokens of closing brackets. -/
def Token.IsCloser : Token → Prop
  | .closeArray | .closeObject => True
  | _ => False

/-- One token may come right before another. -/
def Token.MayPrecede (s t : Token) : Prop :=
  (s = .comma → ¬ t.IsCloser) ∧ (s.IsScalar → ¬ t.IsScalar)

theorem Token.Writes.not_isCloser {t : Token} {v : Json} (h : t.Writes v) : ¬ t.IsCloser := by
  cases h <;> exact id

theorem Token.Writes.ne_comma {t : Token} {v : Json} (h : t.Writes v) : t ≠ .comma := by
  cases h <;> simp

theorem Reading.Takes.mayPrecede {r r' r'' : Reading} {s t : Token} (hs : r.Takes s r')
    (ht : r'.Takes t r'') : s.MayPrecede t := by
  refine ⟨?_, fun hscalar => ?_⟩
  · rintro rfl
    -- after a comma the reader wants a value or a name
    cases hs with
    | value _ hwrites => exact absurd rfl hwrites.ne_comma
    | nextElement =>
      cases ht with
      | value _ hwrites => exact hwrites.not_isCloser
      | _ => exact id
    | nextMember =>
      cases ht with
      | value _ hwrites => exact hwrites.not_isCloser
      | _ => exact id
  · -- after a scalar it wants a comma or a closing bracket
    cases hs with
    | value =>
      cases ht with
      | value hw => exact hw.elim
      | _ => exact id
    | _ => exact hscalar.elim

/-- No closing bracket follows a comma, and no scalar follows a scalar. -/
theorem Reading.Accepts.isChain {r : Reading} {ts : List Token} {v : Json} (h : r.Accepts ts v) :
    ts.IsChain Token.MayPrecede := by
  induction h with
  | done => exact .nil
  | take hs h ih =>
    cases h with
    | done => exact .singleton _
    | take ht h => exact .cons_cons (hs.mayPrecede ht) ih

end ButtonDialog.Json
