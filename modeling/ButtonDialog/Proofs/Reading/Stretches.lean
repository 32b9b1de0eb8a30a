import ButtonDialog.Proofs.Keys
import ButtonDialog.Proofs.Reading.Cleaning

/-! The stretches of a text.

    Whether it is JSON or not, a text is cut in one way into texts between quotes, comments, and the
    characters of the code around them. The last of them may break off where the text ends. -/

namespace ButtonDialog.Json.Lenient

/-- What encloses a stretch that is no code. -/
inductive Enclosure where
  | quotes
  | line
  | block
  deriving DecidableEq

namespace Enclosure

/-- What opens the stretch. -/
def opener : Enclosure → List Char
  | quotes => ['"']
  | line => ['/', '/']
  | block => ['/', '*']

/-- What closes the stretch, where it comes first. -/
def closer : Enclosure → List Char
  | quotes => ['"']
  | line => ['\n']
  | block => ['*', '/']

/-- Nothing in these characters closes the stretch. -/
def Clear : Enclosure → List Char → Prop
  | quotes, cs => Inside cs
  | line, cs => '\n' ∉ cs
  | block, cs => ¬ ['*', '/'] <:+: cs

/-- The stretch is closed in these characters. -/
def Closes (e : Enclosure) (cs : List Char) : Prop :=
  ∃ inside rest, e.Clear inside ∧ cs = inside ++ (e.closer ++ rest)

end Enclosure

/-- A stretch of a lenient text: a character of code, or what stands between quotes or in a comment.
Only at the end of the text is a stretch not closed. -/
inductive Stretch where
  | code (c : Char)
  | enclosed (e : Enclosure) (inside : List Char) (closed : Bool)

namespace Stretch

/-- The characters of a stretch. -/
def chars : Stretch → List Char
  | code c => [c]
  | enclosed e inside closed => e.opener ++ (inside ++ if closed then e.closer else [])

/-- A stretch is what it is said to be where `rest` comes next: what opens quotes or a comment is no
code, what can be closed is closed at once, and what cannot is last. -/
def Fits : Stretch → List Char → Prop
  | code c, rest => ∀ e : Enclosure, ¬ e.opener <+: c :: rest
  | enclosed e inside true, _ => e.Clear inside
  | enclosed e inside false, rest => ¬ e.Closes inside ∧ rest = []

end Stretch

/-- A text and the stretches that it consists of. -/
inductive Cut : List Stretch → List Char → Prop
  | nil : Cut [] []
  | cons {s : Stretch} {ss : List Stretch} {rest : List Char} :
    s.Fits rest → Cut ss rest → Cut (s :: ss) (s.chars ++ rest)

/-! ## Every text has one cut -/

theorem Inside.append_quote_inj {inside inside' rest rest' : List Char} (h : Inside inside)
    (h' : Inside inside') (heq : inside ++ '"' :: rest = inside' ++ '"' :: rest') :
    inside = inside' ∧ rest = rest' := by
  induction h generalizing inside' with
  | nil =>
    cases h' with
    | nil => exact ⟨rfl, (List.cons.inj heq).2⟩
    | plain hquote => exact absurd (List.cons.inj heq).1.symm hquote
    | escape => exact absurd (List.cons.inj heq).1 (by decide)
  | plain hquote hslash _ ih =>
    cases h' with
    | nil => exact absurd (List.cons.inj heq).1 hquote
    | plain _ _ h' =>
      obtain ⟨rfl, htail⟩ := List.cons.inj heq
      obtain ⟨rfl, hrest⟩ := ih h' htail
      exact ⟨rfl, hrest⟩
    | escape => exact absurd (List.cons.inj heq).1 hslash
  | escape _ ih =>
    cases h' with
    | nil => exact absurd (List.cons.inj heq).1 (by decide)
    | plain _ hslash => exact absurd (List.cons.inj heq).1.symm hslash
    | escape h' =>
      obtain ⟨rfl, htail⟩ := List.cons.inj (List.cons.inj heq).2
      obtain ⟨rfl, hrest⟩ := ih h' htail
      exact ⟨rfl, hrest⟩

/-- A comment does not go on beyond where it is closed. -/
theorem eq_of_append_closer {inside more rest rest' : List Char}
    (h : ¬ ['*', '/'] <:+: inside ++ more)
    (heq : '*' :: '/' :: rest = more ++ '*' :: '/' :: rest') : more = [] := by
  match more with
  | [] => rfl
  | [c] => simp at heq
  | c :: d :: more =>
    simp only [List.cons_append, List.cons.injEq] at heq
    obtain ⟨rfl, rfl, -⟩ := heq
    exact absurd ⟨inside, more, by simp⟩ h

theorem append_blockCloser_inj {inside inside' rest rest' : List Char}
    (h : ¬ ['*', '/'] <:+: inside) (h' : ¬ ['*', '/'] <:+: inside')
    (heq : inside ++ '*' :: '/' :: rest = inside' ++ '*' :: '/' :: rest') :
    inside = inside' ∧ rest = rest' := by
  have hinside : inside = inside' := by
    rcases List.append_eq_append_iff.1 heq with ⟨more, rfl, hmore⟩ | ⟨more, rfl, hmore⟩
    · rw [eq_of_append_closer h' hmore, List.append_nil]
    · rw [eq_of_append_closer h hmore, List.append_nil]
  subst hinside
  simpa using heq

namespace Enclosure

variable {e : Enclosure}

/-- A stretch is closed in one place. -/
theorem Clear.append_closer_inj {inside inside' rest rest' : List Char} (h : e.Clear inside)
    (h' : e.Clear inside') (heq : inside ++ (e.closer ++ rest) = inside' ++ (e.closer ++ rest')) :
    inside = inside' ∧ rest = rest' := by
  cases e with
  | quotes => exact h.append_quote_inj h' heq
  | line => exact append_cons_inj_of_notMem h h' heq
  | block => exact append_blockCloser_inj h h' heq

/-- The first two characters of a stretch tell what encloses it. -/
theorem opener_inj {e' : Enclosure} {cs cs' : List Char} (h : e.opener ++ cs = e'.opener ++ cs') :
    e = e' ∧ cs = cs' := by
  cases e <;> cases e' <;> simp_all [opener]

end Enclosure

/-- The first stretch of a text is what it is. -/
theorem Stretch.Fits.inj {s s' : Stretch} {rest rest' : List Char} (h : s.Fits rest)
    (h' : s'.Fits rest') (heq : s.chars ++ rest = s'.chars ++ rest') : s = s' ∧ rest = rest' := by
  have hcode {c : Char} {e : Enclosure} {inside rest rest' : List Char} {closed : Bool}
      (h : (code c).Fits rest)
      (heq : (code c).chars ++ rest = (enclosed e inside closed).chars ++ rest') : False := by
    refine h e ⟨(inside ++ if closed then e.closer else []) ++ rest', ?_⟩
    rw [← List.append_assoc]
    exact heq.symm
  cases s with
  | code c =>
    cases s' with
    | code c' =>
      obtain ⟨rfl, hrest⟩ := List.cons.inj heq
      exact ⟨rfl, hrest⟩
    | enclosed e' inside' closed' => exact (hcode h heq).elim
  | enclosed e inside closed =>
    cases s' with
    | code c' => exact (hcode h' heq.symm).elim
    | enclosed e' inside' closed' =>
      simp only [chars, List.append_assoc] at heq
      obtain ⟨rfl, hinside⟩ := Enclosure.opener_inj heq
      cases closed <;> cases closed'
      · obtain ⟨-, rfl⟩ := h
        obtain ⟨-, rfl⟩ := h'
        simp_all
      · obtain ⟨hopen, rfl⟩ := h
        exact absurd ⟨inside', rest', h', by simpa using hinside⟩ hopen
      · obtain ⟨hopen, rfl⟩ := h'
        exact absurd ⟨inside, rest, h, by simpa using hinside.symm⟩ hopen
      · obtain ⟨rfl, hrest⟩ := Enclosure.Clear.append_closer_inj h h' hinside
        exact ⟨rfl, hrest⟩

theorem Stretch.chars_ne_nil (s : Stretch) : s.chars ≠ [] := by
  cases s with
  | code c => exact List.cons_ne_nil c []
  | enclosed e inside closed => cases e <;> exact List.cons_ne_nil _ _

theorem Cut.unique {ss ss' : List Stretch} {cs : List Char} (h : Cut ss cs) (h' : Cut ss' cs) :
    ss' = ss := by
  induction h generalizing ss' with
  | nil =>
    generalize hcs : [] = cs at h'
    cases h' with
    | nil => rfl
    | cons => exact absurd (List.append_eq_nil_iff.1 hcs.symm).1 (Stretch.chars_ne_nil _)
  | @cons s ss rest hs _ ih =>
    generalize hcs : s.chars ++ rest = cs at h'
    cases h' with
    | nil => exact absurd (List.append_eq_nil_iff.1 hcs).1 (Stretch.chars_ne_nil _)
    | cons hs' h' =>
      obtain ⟨rfl, rfl⟩ := hs.inj hs' hcs
      rw [ih h']

theorem exists_stretch {c : Char} {cs : List Char} :
    ∃ (s : Stretch) (rest : List Char), s.Fits rest ∧ c :: cs = s.chars ++ rest := by
  by_cases hcode : ∀ e : Enclosure, ¬ e.opener <+: c :: cs
  · exact ⟨.code c, cs, hcode, rfl⟩
  simp only [not_forall, not_not] at hcode
  obtain ⟨e, tail, htail⟩ := hcode
  by_cases hcloses : e.Closes tail
  · obtain ⟨inside, rest, hclear, rfl⟩ := hcloses
    refine ⟨.enclosed e inside true, rest, hclear, ?_⟩
    simp [Stretch.chars, ← htail]
  · refine ⟨.enclosed e tail false, [], ⟨hcloses, rfl⟩, ?_⟩
    simp [Stretch.chars, htail]

/-- Every text consists of stretches. -/
theorem exists_cut (cs : List Char) : ∃ ss, Cut ss cs := by
  induction hlength : cs.length using Nat.strong_induction_on generalizing cs with
  | _ n ih =>
    cases cs with
    | nil => exact ⟨[], .nil⟩
    | cons c cs =>
      obtain ⟨s, rest, hs, heq⟩ := @exists_stretch c cs
      have hshorter : rest.length < n := by
        have hchars := List.length_pos_iff.2 s.chars_ne_nil
        rw [← hlength, heq, List.length_append]
        omega
      obtain ⟨ss, hss⟩ := ih _ hshorter rest rfl
      exact ⟨s :: ss, heq ▸ .cons hs hss⟩

/-! ## Stretches that nothing closes -/

/-- A text that no quote closes has at most a backslash too many. -/
theorem exists_inside_of_not_closes : ∀ {cs : List Char}, ¬ Enclosure.quotes.Closes cs →
    ∃ inside last, Inside inside ∧ (last = [] ∨ last = ['\\']) ∧ cs = inside ++ last
  | [], _ => ⟨[], [], .nil, .inl rfl, rfl⟩
  | [c], h => by
    have hquote : c ≠ '"' := fun hc => h ⟨[], [], .nil, by rw [hc]; rfl⟩
    by_cases hslash : c = '\\'
    · exact ⟨[], [c], .nil, .inr (by rw [hslash]), rfl⟩
    · exact ⟨[c], [], .plain hquote hslash .nil, .inl rfl, rfl⟩
  | c :: d :: cs, h => by
    have hquote : c ≠ '"' := fun hc => h ⟨[], d :: cs, .nil, by rw [hc]; rfl⟩
    by_cases hslash : c = '\\'
    · subst hslash
      have hopen : ¬ Enclosure.quotes.Closes cs := by
        rintro ⟨inside, rest, hinside, rfl⟩
        exact h ⟨'\\' :: d :: inside, rest, .escape hinside, rfl⟩
      obtain ⟨inside, last, hinside, hlast, rfl⟩ := exists_inside_of_not_closes hopen
      exact ⟨'\\' :: d :: inside, last, .escape hinside, hlast, rfl⟩
    · have hopen : ¬ Enclosure.quotes.Closes (d :: cs) := by
        rintro ⟨inside, rest, hinside, heq⟩
        exact h ⟨c :: inside, rest, .plain hquote hslash hinside, by rw [heq]; rfl⟩
      obtain ⟨inside, last, hinside, hlast, heq⟩ := exists_inside_of_not_closes hopen
      exact ⟨c :: inside, last, .plain hquote hslash hinside, hlast, by rw [heq]; rfl⟩

theorem clear_of_not_closes_line {cs : List Char} (h : ¬ Enclosure.line.Closes cs) :
    '\n' ∉ cs := by
  intro hmem
  obtain ⟨inside, rest, rfl, hclear⟩ := List.eq_append_cons_of_mem hmem
  exact h ⟨inside, rest, hclear, rfl⟩

theorem clear_of_not_closes_block {cs : List Char} (h : ¬ Enclosure.block.Closes cs) :
    ¬ ['*', '/'] <:+: cs := by
  induction cs with
  | nil => simp
  | cons c cs ih =>
    rw [List.infix_cons_iff, not_or]
    by_cases hfirst : ['*', '/'] <+: c :: cs
    · obtain ⟨rest, hrest⟩ := hfirst
      exact absurd ⟨[], rest, by simp [Enclosure.Clear], hrest.symm⟩ h
    refine ⟨hfirst, ih ?_⟩
    rintro ⟨inside, rest, hclear, rfl⟩
    have hclear' : ¬ ['*', '/'] <:+: c :: inside := by
      rw [List.infix_cons_iff, not_or]
      exact ⟨fun hends => hfirst (hends.trans (List.prefix_append (c :: inside) _)), hclear⟩
    exact h ⟨c :: inside, rest, hclear', rfl⟩

end ButtonDialog.Json.Lenient
