import Mathlib.Data.List.Chain
import ButtonDialog.Json.Lenient
import ButtonDialog.Json.Reader

/-! The pieces of a text, strict and lenient.

    A piece is a stretch that nothing may be put into: a bracket, a comma or a colon, a text between
    quotes, or a word, which is what numbers and the three literals are. A strict text has blanks
    between its pieces. A lenient text of the same pieces may have comments there as well, and a
    comma after a piece that ends a value, if a closing bracket comes next. -/

namespace ButtonDialog.Json.Lenient

/-! ## Characters -/

/-- The brackets, the comma and the colon. -/
def isMark (c : Char) : Bool :=
  c == '[' || c == ']' || c == '\x7b' || c == '\x7d' || c == ',' || c == ':'

/-- The closing brackets. -/
def isCloser (c : Char) : Bool := c == '\x7d' || c == ']'

/-- The characters of words: all that are not blank and are no mark, quote or slash. -/
def isWordChar (c : Char) : Bool := !Text.isBlank c && !isMark c && c != '"' && c != '/'

/-- Blanks of JSON. -/
def Spaces (cs : List Char) : Prop := ∀ c ∈ cs, isSpace c = true

/-- Characters between quotes: a quote only after a backslash, which takes along whatever character
follows it. -/
inductive Inside : List Char → Prop
  | nil : Inside []
  | plain {c : Char} {cs : List Char} : c ≠ '"' → c ≠ '\\' → Inside cs → Inside (c :: cs)
  | escape {c : Char} {cs : List Char} : Inside cs → Inside ('\\' :: c :: cs)

/-! ## Pieces -/

/-- A stretch of a text that nothing may be put into. -/
inductive Piece where
  | mark (c : Char)
  | quoted (inside : List Char)
  | word (cs : List Char)

namespace Piece

/-- The characters of a piece. -/
def chars : Piece → List Char
  | mark c => [c]
  | quoted inside => '"' :: (inside ++ ['"'])
  | word cs => cs

/-- A piece is what it is said to be. -/
def Proper : Piece → Prop
  | mark c => isMark c = true
  | quoted inside => Inside inside
  | word cs => cs ≠ [] ∧ ∀ c ∈ cs, isWordChar c = true

/-- A closing bracket. -/
def IsCloser : Piece → Prop
  | mark c => isCloser c = true
  | _ => False

/-- The last piece of a value: its closing bracket, or all of it if it has none. -/
def EndsValue : Piece → Prop
  | mark c => isCloser c = true
  | _ => True

/-- One piece may come right before another. A closing bracket does not follow a comma, and two
words in a row would be one. -/
def MayPrecede : Piece → Piece → Prop
  | mark c, q => c = ',' → ¬ q.IsCloser
  | word _, word _ => False
  | _, _ => True

end Piece

/-- Pieces in an order that strict texts may have them in. -/
def Orderly (ps : List Piece) : Prop := ps.IsChain Piece.MayPrecede

/-! ## Strict texts -/

/-- A strict text: its pieces, with blanks between them, before the first and after the last. -/
inductive Spells : List Piece → List Char → Prop
  | nil {gap : List Char} : Spaces gap → Spells [] gap
  | cons {gap cs : List Char} {p : Piece} {ps : List Piece} :
    Spaces gap → p.Proper → Spells ps cs → Spells (p :: ps) (gap ++ (p.chars ++ cs))

/-- Pieces written one after the other are a strict text. -/
theorem spells_flatMap {ps : List Piece} (h : ∀ p ∈ ps, p.Proper) :
    Spells ps (ps.flatMap Piece.chars) := by
  have hnil : Spaces [] := List.forall_mem_nil _
  induction ps with
  | nil => exact .nil hnil
  | cons p ps ih =>
    obtain ⟨hp, hps⟩ := List.forall_mem_cons.1 h
    exact .cons hnil hp (ih hps)

/-! ## Lenient texts -/

/-- What may stand between the pieces of a lenient text: blanks, comments that end with their line,
and block comments. Whatever a comment says, it does not hold what ends it. -/
inductive Filler : List Char → Prop
  | nil : Filler []
  | blank {c : Char} {cs : List Char} : isSpace c = true → Filler cs → Filler (c :: cs)
  | line {comment cs : List Char} : '\n' ∉ comment → Filler cs →
    Filler ('/' :: '/' :: (comment ++ '\n' :: cs))
  | block {comment cs : List Char} : ¬ ['*', '/'] <:+: comment → Filler cs →
    Filler ('/' :: '*' :: (comment ++ '*' :: '/' :: cs))

/-- What may stand after the last piece: the last comment may also end with the text. -/
inductive LastFiller : List Char → Prop
  | ended {cs : List Char} : Filler cs → LastFiller cs
  | line {cs comment : List Char} : Filler cs → '\n' ∉ comment →
    LastFiller (cs ++ '/' :: '/' :: comment)

/-- A lenient text: its pieces, with blanks and comments between them, and maybe a comma where a
value is complete and a closing bracket is next. -/
inductive Decorates : List Piece → List Char → Prop
  | nil {filler : List Char} : LastFiller filler → Decorates [] filler
  | cons {filler cs : List Char} {p : Piece} {ps : List Piece} :
    Filler filler → p.Proper → Decorates ps cs → Decorates (p :: ps) (filler ++ (p.chars ++ cs))
  | comma {filler between cs : List Char} {p closer : Piece} {ps : List Piece} :
    Filler filler → p.Proper → p.EndsValue → Filler between → closer.IsCloser →
    Decorates (closer :: ps) cs →
    Decorates (p :: closer :: ps) (filler ++ (p.chars ++ (between ++ ',' :: cs)))

/-- A lenient text that is a strict text with comments, blanks and commas added: both have the same
pieces. -/
def Decoration (strict lenient : List Char) : Prop :=
  ∃ ps, Orderly ps ∧ Spells ps strict ∧ Decorates ps lenient

/-! ## Looser texts -/

/-- The opening brackets. -/
def isOpener (c : Char) : Bool := c == '\x7b' || c == '['

/-- A piece that a closing bracket may follow: the last piece of a value, or the bracket that opens
what is closed. -/
def Piece.MayEnd : Piece → Prop
  | mark c => isCloser c = true ∨ isOpener c = true
  | _ => True

/-- What may stand after the last piece of a looser text: the last comment may end with the text
also if it is a block comment that nothing closes. -/
inductive Trailer : List Char → Prop
  | last {cs : List Char} : LastFiller cs → Trailer cs
  | block {cs comment : List Char} : Filler cs → ¬ ['*', '/'] <:+: comment →
    Trailer (cs ++ '/' :: '*' :: comment)

/-- A looser text: a lenient text whose last block comment may be left open, and which may also have
a comma alone between the brackets of an empty array or object. -/
inductive Loosens : List Piece → List Char → Prop
  | nil {trailer : List Char} : Trailer trailer → Loosens [] trailer
  | cons {filler cs : List Char} {p : Piece} {ps : List Piece} :
    Filler filler → p.Proper → Loosens ps cs → Loosens (p :: ps) (filler ++ (p.chars ++ cs))
  | comma {filler between cs : List Char} {p closer : Piece} {ps : List Piece} :
    Filler filler → p.Proper → p.MayEnd → Filler between → closer.IsCloser →
    Loosens (closer :: ps) cs →
    Loosens (p :: closer :: ps) (filler ++ (p.chars ++ (between ++ ',' :: cs)))

/-- A looser text that is a strict text with comments, blanks and commas added: both have the same
pieces. -/
def Loosening (strict loose : List Char) : Prop :=
  ∃ ps, Orderly ps ∧ Spells ps strict ∧ Loosens ps loose

/-! ## Strict texts are lenient, and lenient texts are loose -/

theorem filler_of_spaces {gap : List Char} (h : Spaces gap) : Filler gap := by
  induction gap with
  | nil => exact .nil
  | cons c gap ih =>
    obtain ⟨hc, hgap⟩ := List.forall_mem_cons.1 h
    exact .blank hc (ih hgap)

theorem Spells.decorates {ps : List Piece} {cs : List Char} (h : Spells ps cs) :
    Decorates ps cs := by
  induction h with
  | nil hgap => exact .nil (.ended (filler_of_spaces hgap))
  | cons hgap hp _ ih => exact .cons (filler_of_spaces hgap) hp ih

theorem Piece.EndsValue.mayEnd {p : Piece} (h : p.EndsValue) : p.MayEnd := by
  cases p with
  | mark c => exact .inl h
  | quoted inside => trivial
  | word cs => trivial

theorem Decorates.loosens {ps : List Piece} {cs : List Char} (h : Decorates ps cs) :
    Loosens ps cs := by
  induction h with
  | nil hlast => exact .nil (.last hlast)
  | cons hfiller hp _ ih => exact .cons hfiller hp ih
  | comma hfiller hp hends hbetween hcloser _ ih =>
    exact .comma hfiller hp hends.mayEnd hbetween hcloser ih

end ButtonDialog.Json.Lenient
