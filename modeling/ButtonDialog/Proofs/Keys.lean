import ButtonDialog.Key
import ButtonDialog.Text.Decimal

/-! What keys tell apart.

    Parts without bars can be told from the text that joins them, the digest from its symbols. So
    two lists of such parts have one key only if the digests of two different texts agree. That they
    do not is a property of the digest which no proof can give; `Apart` states it for the texts that
    are at hand. -/

namespace ButtonDialog

/-- Texts with the same digest are the same, among those of a list. -/
def Sha256.Apart (texts : List String) : Prop :=
  ∀ s ∈ texts, ∀ t ∈ texts, Sha256.digest (Key.bytes s) = Sha256.digest (Key.bytes t) → s = t

instance (texts : List String) : Decidable (Sha256.Apart texts) :=
  inferInstanceAs (Decidable (∀ s ∈ texts, ∀ t ∈ texts, _ → _))

/-- What stands before the first character of a kind can be told from what stands after it. -/
theorem append_cons_inj_of_notMem {α : Type} {c : α} {before before' after after' : List α}
    (h : c ∉ before) (h' : c ∉ before') (heq : before ++ c :: after = before' ++ c :: after') :
    before = before' ∧ after = after' := by
  induction before generalizing before' with
  | nil =>
    cases before' with
    | nil => exact ⟨rfl, (List.cons.inj heq).2⟩
    | cons d _ => exact absurd ((List.cons.inj heq).1 ▸ List.mem_cons_self) h'
  | cons d before ih =>
    cases before' with
    | nil => exact absurd ((List.cons.inj heq).1 ▸ List.mem_cons_self) h
    | cons d' before' =>
      obtain ⟨hd, htail⟩ := List.cons.inj heq
      obtain ⟨hbefore, hafter⟩ := ih (fun hmem => h (List.mem_cons_of_mem _ hmem))
        (fun hmem => h' (List.mem_cons_of_mem _ hmem)) htail
      exact ⟨by rw [hd, hbefore], hafter⟩

namespace Key

/-- A part without a bar, such as the ids of documents are. -/
def BarFree (part : String) : Prop := '|' ∉ part.toList

instance (part : String) : Decidable (BarFree part) :=
  inferInstanceAs (Decidable ('|' ∉ part.toList))

theorem barFree_decimal (n : Int64) : BarFree (decimal n) := by
  intro h
  rcases isDigit_or_minus_of_mem_decimal h with h | h <;> cases h

theorem toList_joined_cons (part : String) {parts : List String} (h : parts ≠ []) :
    (joined (part :: parts)).toList = part.toList ++ '|' :: '|' :: (joined parts).toList := by
  rw [joined, String.intercalate_cons_of_ne_nil h, String.toList_append, String.toList_append,
    List.append_assoc]
  rfl

theorem joined_singleton (part : String) : joined [part] = part := String.intercalate_singleton

/-- Parts without bars can be told from the text that joins them. -/
theorem joined_injective : ∀ {parts parts' : List String}, parts ≠ [] → parts' ≠ [] →
    (∀ part ∈ parts, BarFree part) → (∀ part ∈ parts', BarFree part) →
    joined parts = joined parts' → parts = parts'
  | [part], [part'], _, _, _, _, h => by
    rw [joined_singleton, joined_singleton] at h
    rw [h]
  | [part], part' :: next :: parts', _, _, hfree, _, h => by
    -- one text has a bar, the other has none
    have hlist := congrArg String.toList h
    rw [joined_singleton, toList_joined_cons part' (by simp)] at hlist
    refine absurd ?_ (hfree part List.mem_cons_self)
    rw [hlist]
    exact List.mem_append_right _ List.mem_cons_self
  | part :: next :: parts, [part'], _, _, _, hfree, h => by
    have hlist := congrArg String.toList h
    rw [joined_singleton, toList_joined_cons part (by simp)] at hlist
    refine absurd ?_ (hfree part' List.mem_cons_self)
    rw [← hlist]
    exact List.mem_append_right _ List.mem_cons_self
  | part :: next :: parts, part' :: next' :: parts', _, _, hfree, hfree', h => by
    have hlist := congrArg String.toList h
    rw [toList_joined_cons part (by simp), toList_joined_cons part' (by simp)] at hlist
    obtain ⟨hfirst, hrest⟩ := append_cons_inj_of_notMem (hfree part List.mem_cons_self)
      (hfree' part' List.mem_cons_self) hlist
    have hjoined := String.toList_inj.1 (List.cons.inj hrest).2
    rw [String.toList_inj.1 hfirst, joined_injective (by simp) (by simp)
      (fun p hp => hfree p (List.mem_cons_of_mem _ hp))
      (fun p hp => hfree' p (List.mem_cons_of_mem _ hp)) hjoined]

/-- The bars of a joined text are those of its parts and two between any two of them. -/
theorem count_bar_joined (part : String) (parts : List String) :
    (joined (part :: parts)).toList.count '|' =
      ((part :: parts).flatMap String.toList).count '|' + 2 * parts.length := by
  induction parts generalizing part with
  | nil => simp [joined_singleton]
  | cons next parts ih =>
    rw [toList_joined_cons part (by simp), List.flatMap_cons, List.count_append, List.count_append,
      List.count_cons_self, List.count_cons_self, ih, List.length_cons]
    omega

/-- A text that joins parts without bars joins no other parts, as many as these: where any of them
had a bar, the text would have too many. -/
theorem joined_injective_of_length {parts parts' : List String}
    (hlength : parts.length = parts'.length) (hfree : ∀ part ∈ parts', BarFree part)
    (h : joined parts = joined parts') : parts = parts' := by
  cases parts with
  | nil => exact (List.length_eq_zero_iff.1 hlength.symm).symm
  | cons part parts =>
    cases parts' with
    | nil => cases hlength
    | cons part' parts' =>
      have hbars : ((part' :: parts').flatMap String.toList).count '|' = 0 := by
        refine List.count_eq_zero.2 fun hmem => ?_
        obtain ⟨p, hp, hbar⟩ := List.mem_flatMap.1 hmem
        exact hfree p hp hbar
      have hcount := congrArg (fun text : String => text.toList.count '|') h
      simp only [count_bar_joined, hbars] at hcount
      have hnone : ((part :: parts).flatMap String.toList).count '|' = 0 := by
        simp only [List.length_cons] at hlength
        omega
      refine joined_injective (by simp) (by simp) (fun p hp hbar => ?_) hfree h
      exact List.count_eq_zero.1 hnone (List.mem_flatMap.2 ⟨p, hp, hbar⟩)

/-- Keys of texts agree only if the digests of the texts do. -/
theorem digest_eq_of_ofText_eq {s t : String} (h : ofText s = ofText t) :
    Sha256.digest (bytes s) = Sha256.digest (bytes t) :=
  Base64Url.symbols_injective (by simp) (String.ofList_injective h)

/-- Where digests tell the joined texts apart, keys tell these texts apart. -/
theorem joined_eq_of_ofParts_eq {lists : List (List String)}
    (hapart : Sha256.Apart (lists.map joined)) {parts parts' : List String}
    (hmem : parts ∈ lists) (hmem' : parts' ∈ lists) (hne : parts ≠ []) (hne' : parts' ≠ [])
    (h : ofParts parts = ofParts parts') : joined parts = joined parts' := by
  cases parts with
  | nil => exact absurd rfl hne
  | cons part parts =>
    cases parts' with
    | nil => exact absurd rfl hne'
    | cons part' parts' =>
      exact hapart _ (List.mem_map_of_mem hmem) _ (List.mem_map_of_mem hmem')
        (digest_eq_of_ofText_eq h)

/-- Where digests tell the joined texts apart, keys tell the parts apart. -/
theorem ofParts_injective {lists : List (List String)}
    (hapart : Sha256.Apart (lists.map joined)) {parts parts' : List String}
    (hmem : parts ∈ lists) (hmem' : parts' ∈ lists) (hne : parts ≠ []) (hne' : parts' ≠ [])
    (hfree : ∀ part ∈ parts, BarFree part) (hfree' : ∀ part ∈ parts', BarFree part)
    (h : ofParts parts = ofParts parts') : parts = parts' :=
  joined_injective hne hne' hfree hfree' (joined_eq_of_ofParts_eq hapart hmem hmem' hne hne' h)

/-- Where digests tell the joined texts apart, different lists of parts have different keys. -/
theorem nodup_map_ofParts {lists : List (List String)}
    (hapart : Sha256.Apart (lists.map joined)) (hne : ∀ parts ∈ lists, parts ≠ [])
    (hfree : ∀ parts ∈ lists, ∀ part ∈ parts, BarFree part) (hnodup : lists.Nodup) :
    (lists.map ofParts).Nodup := by
  refine List.pairwise_map.2 (hnodup.imp_of_mem ?_)
  intro parts parts' hmem hmem' hdiffer heq
  exact hdiffer (ofParts_injective hapart hmem hmem' (hne _ hmem) (hne _ hmem') (hfree _ hmem)
    (hfree _ hmem') heq)

/-- Every character of a key stands in the alphabet. -/
theorem isSymbol_of_mem_ofText {text : String} {c : Char} (h : c ∈ (ofText text).toList) :
    Base64Url.isSymbol c = true := by
  rw [ofText, Base64Url.encode, String.toList_ofList] at h
  exact Base64Url.isSymbol_of_mem_symbols h

/-- A stage and a choice have different keys, for a choice has one part more. -/
theorem stage_ne_choice {procedure id procedure' stage' id' : String}
    (hfree : ∀ part ∈ [procedure, id, procedure', stage', id'], BarFree part)
    (hapart : Sha256.Apart [joined [procedure, id], joined [procedure', stage', id']]) :
    stage procedure id ≠ choice procedure' stage' id' := by
  intro h
  have hapart : Sha256.Apart ([[procedure, id], [procedure', stage', id']].map joined) := hapart
  have hparts := ofParts_injective hapart (by simp) (by simp) (by simp) (by simp)
    (fun part hpart => hfree part ?_) (fun part hpart => hfree part ?_) h
  · cases hparts
  · simp only [List.mem_cons, List.not_mem_nil, or_false] at hpart ⊢
    rcases hpart with rfl | rfl <;> simp
  · simp only [List.mem_cons, List.not_mem_nil, or_false] at hpart ⊢
    rcases hpart with rfl | rfl | rfl <;> simp

/-- The key of parts without bars is theirs alone. Another list of such parts has another key, be
it longer, shorter or cut elsewhere, where the digest tells the two joined texts apart; so a stage
never has the key of a choice. A key has forty-three symbols. Lists of as many parts that may hold
bars as they like are joined to another text, whatever the digest does. -/
theorem tells_parts_apart {parts : List String} (hne : parts ≠ [])
    (hfree : ∀ part ∈ parts, BarFree part) :
    (∀ parts' : List String, parts' ≠ [] → (∀ part ∈ parts', BarFree part) →
      Sha256.Apart [joined parts, joined parts'] →
        (ofParts parts = ofParts parts' ↔ parts = parts')) ∧
    (∀ procedure id procedure' stage' id',
      (∀ part ∈ [procedure, id, procedure', stage', id'], BarFree part) →
      Sha256.Apart [joined [procedure, id], joined [procedure', stage', id']] →
        stage procedure id ≠ choice procedure' stage' id') ∧
    ((ofParts parts).length = 43 ∧ ∀ c ∈ (ofParts parts).toList, Base64Url.isSymbol c = true) ∧
    ∀ others : List String, others.length = parts.length → joined others = joined parts →
      others = parts := by
  refine ⟨fun parts' hne' hfree' hapart => ⟨fun h => ?_, fun h => h ▸ rfl⟩,
    fun _ _ _ _ _ => stage_ne_choice, ?_, fun others hlength hjoined => ?_⟩
  · have hapart : Sha256.Apart ([parts, parts'].map joined) := hapart
    exact ofParts_injective hapart (by simp) (by simp) hne hne' hfree hfree' h
  · obtain ⟨part, parts, rfl⟩ := List.exists_cons_of_ne_nil hne
    exact ⟨length_ofText _, fun c hc => isSymbol_of_mem_ofText hc⟩
  · exact joined_injective_of_length hlength hfree hjoined

/-- An empty part counts, and so does where one part ends and the next begins. -/
theorem tells_empty_part_apart :
    ofParts ["1", "", "2"] ≠ ofParts ["1", "2"] ∧ ofParts ["1", "", "2"] ≠ ofParts ["", "1", "2"] ∧
      ∀ a b c, joined [a, b, c] = "1||||2" → [a, b, c] = ["1", "", "2"] := by
  have hfree : ∀ part ∈ ["1", "", "2"], BarFree part := by decide
  obtain ⟨htells, -, -, hjoins⟩ := tells_parts_apart (by simp) hfree
  refine ⟨fun h => ?_, fun h => ?_, fun a b c => hjoins [a, b, c] rfl⟩
  · have := (htells ["1", "2"] (by simp) (by decide) (by decide +kernel)).1 h
    simp at this
  · have := (htells ["", "1", "2"] (by simp) (by decide) (by decide +kernel)).1 h
    simp at this

/-- With a bar in a part, two pairs may be joined to one text. -/
example : joined ["1|", "2"] = joined ["1", "|2"] := by decide

end Key

end ButtonDialog
