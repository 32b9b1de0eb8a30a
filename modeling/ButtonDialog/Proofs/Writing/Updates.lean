import ButtonDialog.Update
import ButtonDialog.Proofs.Writing.Values

/-! Updates in writing.

    Every update is read back from the line it is written as. An object is read as an update exactly
    when it spells that update: each field stands once under its name, in any order and among any
    other members, except that an absent value may be `null` or missing. So what has been read can
    be written and read again, and nothing changes any more. -/

namespace ButtonDialog

namespace Json

theorem toInt64?_eq_some_iff {v : Json} {n : Int64} : v.toInt64? = some n ↔ v = .int64 n := by
  refine ⟨fun h => ?_, fun h => h ▸ Number.toInt64?_ofInt64 n⟩
  match v, h with
  | .number (.integer k), h => rw [int64, Number.ofInt64, int64?_eq_some_iff.1 h]

theorem toText?_eq_some_iff {v : Json} {s : String} : v.toText? = some s ↔ v = .text s := by
  refine ⟨fun h => ?_, fun h => h ▸ rfl⟩
  match v, h with
  | .text _, h => rw [← Option.some.inj h]

/-- A value that may be `null` is one that may be absent in writing, if nothing else is written as
`null`. -/
theorem nullable?_eq_some_iff {α : Type} {f : Json → Option α} {g : α → Json}
    (hf : ∀ v a, f v = some a ↔ v = g a) (hg : ∀ a, g a ≠ .null) {v : Json} {o : Option α} :
    v.nullable? f = some o ↔ v = .optional g o := by
  constructor
  · intro h
    unfold nullable? at h
    split at h
    · rename_i hnull
      rw [← Option.some.inj h, isNull_iff.1 hnull]
      rfl
    · obtain ⟨a, ha, rfl⟩ := Option.map_eq_some_iff.1 h
      exact (hf v a).1 ha
  · rintro rfl
    exact nullable?_optional (fun a => (hf _ a).2 rfl) hg o

end Json

namespace Update

/-! ## One value for a name -/

/-- Under this name, the members have nothing. -/
def Without (members : List (String × Json)) (name : String) : Prop := ∀ m ∈ members, m.1 ≠ name

/-- Under this name, the members have this value and no other. -/
def Only (members : List (String × Json)) (name : String) (v : Json) : Prop :=
  ∃ before after, members = before ++ (name, v) :: after ∧ Without before name ∧ Without after name

/-- Under this name, the members have a value that may be absent: an absent one is `null` or
missing. -/
def Perhaps {α : Type} (f : α → Json) (members : List (String × Json)) (name : String)
    (o : Option α) : Prop :=
  Only members name (.optional f o) ∨ o = none ∧ Without members name

/-- The members of an object that is an update in writing. -/
inductive SpelledBy (members : List (String × Json)) : Update → Prop
  | message {chat : Int64} {text : String} :
    Only members "type" (.text messageKind) → Only members "chat_id" (.int64 chat) →
    Only members "text" (.text text) → SpelledBy members (.message chat text)
  | click {id : String} {chat : Int64} {shown : Option Int64} {data : Option String} :
    Only members "type" (.text clickKind) → Only members "id" (.text id) →
    Only members "chat_id" (.int64 chat) → Perhaps .int64 members "message_id" shown →
    Perhaps .text members "data" data → SpelledBy members (.click id chat shown data)

section Fields

variable {members : List (String × Json)} {name : String} {v : Json}

theorem filter_eq_nil_iff_without :
    members.filter (fun m => m.1 == name) = [] ↔ Without members name := by
  simp [List.filter_eq_nil_iff, Without]

theorem filter_eq_singleton_iff {m : String × Json} :
    members.filter (fun m => m.1 == name) = [m] ↔ m.1 = name ∧ Only members name m.2 := by
  rw [List.filter_eq_cons_iff]
  constructor
  · rintro ⟨before, after, hmembers, hbefore, hname, hafter⟩
    obtain rfl : m.1 = name := by simpa using hname
    exact ⟨rfl, before, after, hmembers, by simpa [Without] using hbefore,
      filter_eq_nil_iff_without.1 hafter⟩
  · rintro ⟨rfl, before, after, hmembers, hbefore, hafter⟩
    exact ⟨before, after, hmembers, by simpa [Without] using hbefore, by simp,
      filter_eq_nil_iff_without.2 hafter⟩

theorem single?_eq_none_iff : single? members name = some none ↔ Without members name := by
  refine ⟨fun h => ?_, fun h => by rw [single?, filter_eq_nil_iff_without.2 h]⟩
  unfold single? at h
  split at h
  · rename_i hnone
    exact filter_eq_nil_iff_without.1 hnone
  · nomatch h
  · nomatch h

theorem single?_eq_some_iff : single? members name = some (some v) ↔ Only members name v := by
  refine ⟨fun h => ?_, fun h => by
    rw [single?, (filter_eq_singleton_iff (m := (name, v))).2 ⟨rfl, h⟩]⟩
  unfold single? at h
  split at h
  · nomatch h
  · rename_i hone
    rw [← Option.some.inj (Option.some.inj h)]
    exact (filter_eq_singleton_iff.1 hone).2
  · nomatch h

theorem perhaps_iff {α : Type} {f : α → Json} {o : Option α} :
    Perhaps f members name o ↔ ∃ v, single? members name = some v ∧
      (v = some (.optional f o) ∨ o = none ∧ v = none) := by
  constructor
  · rintro (h | ⟨ho, h⟩)
    · exact ⟨_, single?_eq_some_iff.2 h, .inl rfl⟩
    · exact ⟨none, single?_eq_none_iff.2 h, .inr ⟨ho, rfl⟩⟩
  · rintro ⟨v, hv, rfl | ⟨ho, rfl⟩⟩
    · exact .inl (single?_eq_some_iff.1 hv)
    · exact .inr ⟨ho, single?_eq_none_iff.1 hv⟩

end Fields

/-! ## The fields of a kind -/

section Values

variable {α : Type} {f : Json → Option α} {g : α → Json} {v : Option Json}

theorem required?_eq_some_iff (hf : ∀ v a, f v = some a ↔ v = g a) {a : α} :
    required? f v = some a ↔ v = some (g a) := by
  cases v with
  | none => simp [required?]
  | some v => simp [required?, hf]

theorem maybe?_eq_some_iff (hf : ∀ v a, f v = some a ↔ v = g a) (hg : ∀ a, g a ≠ .null)
    {o : Option α} :
    maybe? f v = some o ↔ v = some (.optional g o) ∨ o = none ∧ v = none := by
  cases v with
  | none => simp [maybe?, eq_comm]
  | some v => simp [maybe?, Json.nullable?_eq_some_iff hf hg]

end Values

theorem ofFields?_message_iff {chat text : Option Json} {u : Update} :
    ofFields? messageKind [chat, text] = some u ↔
      ∃ c t, chat = some (.int64 c) ∧ text = some (.text t) ∧ .message c t = u := by
  simp only [ofFields?, if_true, Option.bind_eq_bind, Option.bind_eq_some_iff,
    required?_eq_some_iff fun _ _ => Json.toInt64?_eq_some_iff,
    required?_eq_some_iff fun _ _ => Json.toText?_eq_some_iff, Option.pure_def, Option.some.injEq,
    exists_and_left]

theorem ofFields?_click_iff {id chat shown data : Option Json} {u : Update} :
    ofFields? clickKind [id, chat, shown, data] = some u ↔
      ∃ i c s d, id = some (.text i) ∧ chat = some (.int64 c) ∧
        (shown = some (.optional .int64 s) ∨ s = none ∧ shown = none) ∧
        (data = some (.optional .text d) ∨ d = none ∧ data = none) ∧ .click i c s d = u := by
  have hkind : clickKind ≠ messageKind := by decide
  simp only [ofFields?, if_neg hkind, Option.bind_eq_bind, Option.bind_eq_some_iff,
    required?_eq_some_iff fun _ _ => Json.toInt64?_eq_some_iff,
    required?_eq_some_iff fun _ _ => Json.toText?_eq_some_iff,
    maybe?_eq_some_iff (fun _ _ => Json.toInt64?_eq_some_iff) (fun _ => Json.noConfusion),
    maybe?_eq_some_iff (fun _ _ => Json.toText?_eq_some_iff) (fun _ => Json.noConfusion),
    Option.pure_def, Option.some.injEq, exists_and_left]

theorem ofMembers?_iff_fields {members : List (String × Json)} {u : Update} :
    ofMembers? members = some u ↔ ∃ kind names values, Only members "type" (.text kind) ∧
      fieldNames? kind = some names ∧
      List.Forall₂ (fun name v => single? members name = some v) names values ∧
      ofFields? kind values = some u := by
  constructor
  · intro h
    obtain ⟨tag, htag, h⟩ := Option.bind_eq_some_iff.1 h
    obtain ⟨kind, hkind, h⟩ := Option.bind_eq_some_iff.1 h
    -- a kind that is repeated, missing or no text is not read, so there is one
    have htext := (required?_eq_some_iff fun _ _ => Json.toText?_eq_some_iff).1 hkind
    have htype := single?_eq_some_iff.1 (htag.trans (congrArg some htext))
    obtain ⟨names, hnames, h⟩ := Option.bind_eq_some_iff.1 h
    obtain ⟨values, hvalues, h⟩ := Option.bind_eq_some_iff.1 h
    exact ⟨kind, names, values, htype, hnames, Checks.mapM_eq_some_iff.1 hvalues, h⟩
  · rintro ⟨kind, names, values, htype, hnames, hvalues, h⟩
    exact Option.bind_eq_some_iff.2 ⟨_, single?_eq_some_iff.2 htype,
      Option.bind_eq_some_iff.2 ⟨kind, rfl, Option.bind_eq_some_iff.2 ⟨names, hnames,
        Option.bind_eq_some_iff.2 ⟨values, Checks.mapM_eq_some_iff.2 hvalues, h⟩⟩⟩⟩

/-- An object is read as an update exactly when it spells that update. -/
theorem ofMembers?_eq_some_iff {members : List (String × Json)} {u : Update} :
    ofMembers? members = some u ↔ SpelledBy members u := by
  rw [ofMembers?_iff_fields]
  constructor
  · rintro ⟨kind, names, values, htype, hnames, hvalues, hread⟩
    unfold fieldNames? at hnames
    split at hnames
    · rename_i hmessage
      subst hmessage
      obtain rfl := Option.some.inj hnames
      -- one value for each name of the kind, in order
      obtain _ | ⟨hchat, _ | ⟨htext, _ | _⟩⟩ := hvalues
      obtain ⟨c, t, rfl, rfl, rfl⟩ := ofFields?_message_iff.1 hread
      exact .message htype (single?_eq_some_iff.1 hchat) (single?_eq_some_iff.1 htext)
    · split at hnames
      · rename_i hclick
        subst hclick
        obtain rfl := Option.some.inj hnames
        obtain _ | ⟨hid, _ | ⟨hchat, _ | ⟨hshown, _ | ⟨hdata, _ | _⟩⟩⟩⟩ := hvalues
        obtain ⟨i, c, s, d, rfl, rfl, hs, hd, rfl⟩ := ofFields?_click_iff.1 hread
        exact .click htype (single?_eq_some_iff.1 hid) (single?_eq_some_iff.1 hchat)
          (perhaps_iff.2 ⟨_, hshown, hs⟩) (perhaps_iff.2 ⟨_, hdata, hd⟩)
      · nomatch hnames
  · intro h
    cases h with
    | @message chat text htype hchat htext =>
      exact ⟨messageKind, _, _, htype, rfl,
        .cons (single?_eq_some_iff.2 hchat) (.cons (single?_eq_some_iff.2 htext) .nil),
        ofFields?_message_iff.2 ⟨chat, text, rfl, rfl, rfl⟩⟩
    | @click id chat shown data htype hid hchat hshown hdata =>
      obtain ⟨shownValue, hshown, hs⟩ := perhaps_iff.1 hshown
      obtain ⟨dataValue, hdata, hd⟩ := perhaps_iff.1 hdata
      exact ⟨clickKind, _, _, htype, rfl,
        .cons (single?_eq_some_iff.2 hid) (.cons (single?_eq_some_iff.2 hchat)
          (.cons hshown (.cons hdata .nil))),
        ofFields?_click_iff.2 ⟨id, chat, shown, data, rfl, rfl, hs, hd, rfl⟩⟩

/-! ## Lines -/

theorem fits_toJson (u : Update) : Json.Fits Json.maxDepth u.toJson := by
  cases u with
  | message chat text =>
    refine .object ?_
    simp [Json.Fits.text, Json.fits_int64]
  | click id chat shown data =>
    refine .object ?_
    simp [Json.Fits.text, Json.fits_int64, Json.fits_optional]

theorem ofJson?_toJson (u : Update) : ofJson? u.toJson = some u := by
  cases u with
  | message chat text =>
    exact ofMembers?_eq_some_iff.2 (.message (single?_eq_some_iff.1 rfl)
      (single?_eq_some_iff.1 rfl) (single?_eq_some_iff.1 rfl))
  | click id chat shown data =>
    exact ofMembers?_eq_some_iff.2 (.click (single?_eq_some_iff.1 rfl)
      (single?_eq_some_iff.1 rfl) (single?_eq_some_iff.1 rfl) (.inl (single?_eq_some_iff.1 rfl))
      (.inl (single?_eq_some_iff.1 rfl)))

/-- A line that carries an update is read as that update. -/
theorem decode?_encode (u : Update) : decode? u.encode = some u := by
  rw [decode?, encode, (fits_toJson u).read_render]
  exact ofJson?_toJson u

/-- A line written anew from the update it carries. -/
def rewritten? (line : String) : Option String := (decode? line).map encode

/-- Every update is read from the line it is written as. A line with an object carries an update
exactly when the members of the object spell it; so a click may leave out a value it lacks, or give
it as `null`, as the written form does. A line that carries an update, be it an object or an array,
carries the same update once it is written anew, and writing it anew once more changes nothing. -/
theorem decodes_what_it_encodes :
    (∀ u : Update, decode? u.encode = some u) ∧
    (∀ line members u, Json.read line = .ok (.object members) →
      (decode? line = some u ↔ SpelledBy members u)) ∧
    ∀ line, (rewritten? line).bind decode? = decode? line ∧
      (rewritten? line).bind rewritten? = rewritten? line := by
  refine ⟨decode?_encode, fun line members u hread => ?_, fun line => ?_⟩
  · rw [← ofMembers?_eq_some_iff, decode?, hread]
    rfl
  · cases hline : decode? line with
    | none => simp [rewritten?, hline]
    | some u => simp [rewritten?, hline, decode?_encode]

/-- A click that gives no message and no payload: the one is missing, the other is `null`. -/
def sparseClick : List (String × Json) :=
  [("data", .null), ("chat_id", .int64 7), ("seen", .bool true), ("type", .text clickKind),
    ("id", .text "q1")]

/-- The line of this click. -/
def sparseLine : String :=
  "\x7b\"data\":null,\"chat_id\":7,\"seen\":true,\"type\":\"callback_query\",\"id\":\"q1\"\x7d"

theorem read_sparseLine : Json.read sparseLine = .ok (.object sparseClick) := by
  have hline : sparseLine = (Json.object sparseClick).render := by decide +kernel
  have hfits : Json.Fits Json.maxDepth (.object sparseClick) := by
    refine .object ?_
    simp [sparseClick, Json.Fits.null, Json.Fits.bool, Json.Fits.text, Json.fits_int64]
  rw [hline, hfits.read_render]

theorem spelledBy_sparseClick : SpelledBy sparseClick (.click "q1" 7 none none) :=
  .click (single?_eq_some_iff.1 rfl) (single?_eq_some_iff.1 rfl) (single?_eq_some_iff.1 rfl)
    (.inr ⟨rfl, single?_eq_none_iff.1 rfl⟩) (.inl (single?_eq_some_iff.1 rfl))

theorem decodes_sparse_click :
    decode? sparseLine = some (.click "q1" 7 none none) ∧
    decode? (Update.click "q1" 7 none none).encode = some (.click "q1" 7 none none) ∧
    (rewritten? sparseLine).bind decode? = some (.click "q1" 7 none none) := by
  obtain ⟨hencode, hobject, hanew⟩ := decodes_what_it_encodes
  have hline := (hobject _ _ _ read_sparseLine).2 spelledBy_sparseClick
  exact ⟨hline, hencode _, (hanew sparseLine).1.trans hline⟩

/-- A chat and a text in order do for a message. Writing it anew makes an object of it. -/
example : rewritten? "[\"message\",7,\"/start\"]" =
    some "\x7b\"type\":\"message\",\"chat_id\":7,\"text\":\"/start\"\x7d" := by
  decide +kernel

end Update

end ButtonDialog
