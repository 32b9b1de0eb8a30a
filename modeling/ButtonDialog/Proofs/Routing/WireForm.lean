import ButtonDialog.Proofs.Routing.Versions

/-! What buttons carry on the wire.

    A chat service passes on a payload of a few bytes, and may mangle what is not ASCII. A payload
    is a key, a line end and a language. The key has the length of a digest in the URL-safe alphabet,
    the language is a well-formed title of the document, and what is written of such parts is short,
    plain and read back as it was. Whether digests collide does not matter here. -/

namespace ButtonDialog

/-! ## Sizes in bytes -/

/-- A character of ASCII takes one byte. -/
theorem utf8Size_of_ascii {c : Char} (h : c.toNat < 128) : c.utf8Size = 1 := by
  have hbound : (127 : UInt32).toNat = 127 := rfl
  have hcode : c.val.toNat = c.toNat := rfl
  rw [Char.utf8Size_eq_one_iff, UInt32.le_iff_toNat_le]
  omega

/-- A text of ASCII takes as many bytes as it has characters. -/
theorem utf8ByteSize_of_ascii {cs : List Char} (h : ∀ c ∈ cs, c.toNat < 128) :
    (String.ofList cs).utf8ByteSize = cs.length := by
  induction cs with
  | nil => rfl
  | cons c cs ih =>
    obtain ⟨hc, hcs⟩ := List.forall_mem_cons.1 h
    rw [String.ofList_cons, String.utf8ByteSize_append, String.utf8ByteSize_singleton,
      utf8Size_of_ascii hc, ih hcs, List.length_cons, Nat.add_comm]

theorem Base64Url.toNat_lt_of_isSymbol {c : Char} (h : isSymbol c = true) : c.toNat < 128 := by
  have hcode := code_of_isSymbol h
  omega

/-! ## Payloads -/

namespace Payload

/-- The form of a payload on the wire: a key of forty-three symbols, one line end, and the language.
All of it is ASCII, it is short enough to be sent, and it is read as this key and this language. -/
structure WireForm (payload key language : String) : Prop where
  lines : payload = key ++ "\n" ++ language
  keyLength : key.length = 43
  symbols : ∀ c ∈ key.toList, Base64Url.isSymbol c = true
  oneLineEnd : payload.toList.count '\n' = 1
  ascii : ∀ c ∈ payload.toList, c.toNat < 128
  size : payload.utf8ByteSize ≤ 54
  read : parse? payload = some ⟨key, language⟩

/-- The payload of a key and a well-formed title has this form. -/
theorem wireForm_encode {part : String} {parts : List String} {language : String}
    (h : WellFormedTitle language) :
    WireForm (encode ⟨Key.ofParts (part :: parts), language⟩) (Key.ofParts (part :: parts))
      language := by
  have hread : parse? (encode ⟨Key.ofParts (part :: parts), language⟩) =
      some ⟨Key.ofParts (part :: parts), language⟩ := parse?_encode_ofParts h
  have hkey : ∀ c ∈ (Key.ofParts (part :: parts)).toList, Base64Url.isSymbol c = true :=
    fun c hc => Key.isSymbol_of_mem_ofText hc
  have hlength : (Key.ofParts (part :: parts)).length = 43 := Key.length_ofText _
  generalize Key.ofParts (part :: parts) = key at *
  have htitle : ∀ c ∈ language.toList, Base64Url.isSymbol c = true :=
    fun c hc => Base64Url.isSymbol_of_isAlphanum (h.2.2 c hc)
  have hchars : (encode ⟨key, language⟩).toList = key.toList ++ '\n' :: language.toList :=
    toList_encode _
  have hascii : ∀ c ∈ (encode ⟨key, language⟩).toList, c.toNat < 128 := by
    intro c hc
    rw [hchars] at hc
    rcases List.mem_append.1 hc with hc | hc
    · exact Base64Url.toNat_lt_of_isSymbol (hkey c hc)
    · rcases List.mem_cons.1 hc with rfl | hc
      · decide
      · exact Base64Url.toNat_lt_of_isSymbol (htitle c hc)
  refine ⟨rfl, hlength, hkey, ?_, hascii, ?_, hread⟩
  · have hkeyLine : key.toList.count '\n' = 0 :=
      List.count_eq_zero.2 (separator_notMem_of_isSymbol hkey)
    have htitleLine : language.toList.count '\n' = 0 :=
      List.count_eq_zero.2 (separator_notMem_of_isSymbol htitle)
    rw [hchars, List.count_append, hkeyLine, List.count_cons_self, htitleLine]
  · -- forty-three symbols, a line end and at most ten characters
    have hsize := utf8ByteSize_of_ascii hascii
    rw [String.ofList_toList, hchars, List.length_append, List.length_cons, String.length_toList,
      String.length_toList, hlength] at hsize
    have htitleLength := h.2.1
    omega

end Payload

/-- Every button that is shown in a language of the document carries the key of the choice that
stands at its place in the grid of the stage, in the form that payloads have on the wire. -/
theorem Graph.wires_every_button {text : String} {d : Document} {g : Graph}
    (hread : Document.ofText text = .ok d) (hcompile : Graph.compile d = .ok g) :
    ∀ stage ∈ g.stages, ∀ language ∈ g.languages, ∀ layout,
      stage.layouts.get? language = some layout →
        ∀ i j button, gridAt? layout.rows i j = some button →
          ∃ choice, gridAt? (g.grid stage) i j = some choice ∧
            Payload.WireForm button.payload choice.key language := by
  obtain ⟨-, rfl⟩ := Graph.compile_eq_ok_iff.1 hcompile
  have hvalid := Document.valid_of_ofText hread
  intro stage hstage language hl layout hlayout i j button hbutton
  rw [Document.languages_graph] at hl
  obtain ⟨choice, hmem, hchoice, hlabel⟩ :=
    hvalid.exists_choice_of_layout hstage hl hlayout hbutton
  obtain ⟨label, -, rfl⟩ := Option.map_eq_some_iff.1 hlabel
  refine ⟨choice, hchoice, ?_⟩
  rw [Document.key_eq_ofParts_ids hmem]
  exact Payload.wireForm_encode (hvalid.wellFormedTitle hl)

/-- The button of the document of one stage. -/
theorem Graph.wires_loop_button :
    Payload.WireForm "seduE-K1D99o4AgjK7V1NUNpU8YwllXP4wWH05bpLhU\nen"
      "seduE-K1D99o4AgjK7V1NUNpU8YwllXP4wWH05bpLhU" "en" := by
  have hlayouts : Document.loop.graph.stages.toList.map (fun s =>
      (s.layouts.get? "en").map fun layout => (layout.rows,
        (Document.loop.graph.grid s).map (·.map Graph.Choice.key))) =
        [some ([[⟨"Go", "seduE-K1D99o4AgjK7V1NUNpU8YwllXP4wWH05bpLhU\nen"⟩]],
          [["seduE-K1D99o4AgjK7V1NUNpU8YwllXP4wWH05bpLhU"]])] := by decide +kernel
  obtain ⟨stage, hstage, hview⟩ := List.mem_map.1 (hlayouts ▸ List.mem_singleton_self _)
  obtain ⟨layout, hlayout, hview⟩ := Option.map_eq_some_iff.1 hview
  obtain ⟨hrows, hgrid⟩ := Prod.mk.inj hview
  obtain ⟨choice, hchoice, hform⟩ := Graph.wires_every_button Document.ofText_loop
    Document.graph_loop stage (Array.mem_toList_iff.1 hstage) "en" (by decide) layout hlayout 0 0 _
    (by rw [hrows]; rfl)
  have hkey : choice.key = "seduE-K1D99o4AgjK7V1NUNpU8YwllXP4wWH05bpLhU" := by
    have hplace := gridAt?_map Graph.Choice.key (Document.loop.graph.grid stage) 0 0
    rw [hgrid, hchoice] at hplace
    exact (Option.some.inj hplace).symm
  exact hkey ▸ hform

end ButtonDialog
