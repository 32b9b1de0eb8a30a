import ButtonDialog.Proofs.Commands
import ButtonDialog.Proofs.Compilation.Coherence
import ButtonDialog.Proofs.Routing.RoundTrip
import ButtonDialog.Proofs.Serving.Journals
import ButtonDialog.Proofs.Serving.Lines

/-! Which texts start a dialog, and in which language.

    A text is the command of a language exactly if it is written like it, in any letter case and
    with any blanks around it. The languages of a document differ in more than letter case, so a
    text is the command of one of them at most, and each line of the menu is the command of its own
    language. What such a text is answered with is the start stage in that language. -/

namespace ButtonDialog

namespace Text

/-! ## Blanks around a text -/

/-- The text is another one with blanks around it. -/
def Padded (core text : String) : Prop :=
  ∃ before after : String, isBlankText before ∧ isBlankText after ∧ text = before ++ core ++ after

theorem Padded.self (core : String) : Padded core core :=
  ⟨"", "", rfl, rfl, by simp⟩

theorem trimStart_append {blanks cs : List Char} (h : blanks.all isBlank = true) :
    trimStart (blanks ++ cs) = trimStart cs :=
  List.dropWhile_append_of_pos (List.all_eq_true.1 h)

theorem trimEnd_append {blanks cs : List Char} (h : blanks.all isBlank = true) :
    trimEnd (cs ++ blanks) = trimEnd cs := by
  have hreverse : trimStart (cs ++ blanks).reverse = trimStart cs.reverse := by
    rw [List.reverse_append, trimStart_append (by rwa [List.all_reverse])]
  exact congrArg List.reverse hreverse

/-- The blanks that trimming takes off stand before what it leaves. -/
theorem exists_append_trimStart (cs : List Char) :
    ∃ blanks : List Char, blanks.all isBlank = true ∧ cs = blanks ++ trimStart cs :=
  ⟨cs.takeWhile isBlank, List.all_takeWhile, List.takeWhile_append_dropWhile.symm⟩

theorem exists_trimEnd_append (cs : List Char) :
    ∃ blanks : List Char, blanks.all isBlank = true ∧ cs = trimEnd cs ++ blanks := by
  obtain ⟨blanks, hblanks, hcs⟩ := exists_append_trimStart cs.reverse
  refine ⟨blanks.reverse, by rwa [List.all_reverse], ?_⟩
  calc cs = cs.reverse.reverse := (List.reverse_reverse cs).symm
    _ = (blanks ++ trimStart cs.reverse).reverse := congrArg List.reverse hcs
    _ = trimEnd cs ++ blanks.reverse := List.reverse_append

/-- Blanks after characters of which the first is not blank stay where they are. -/
theorem trimEnd_trimStart_append {cs blanks : List Char} (hcs : ∀ c ∈ cs, isBlank c = false)
    (h : blanks.all isBlank = true) : trimEnd (trimStart (cs ++ blanks)) = cs := by
  cases cs with
  | nil =>
    rw [List.nil_append, trimStart_eq_nil_iff.2 h]
    rfl
  | cons c cs =>
    have hstart : trimStart (c :: cs ++ blanks) = c :: cs ++ blanks := by
      rw [List.cons_append, trimStart,
        List.dropWhile_cons_of_neg (by simp [hcs c List.mem_cons_self])]
    rw [hstart, trimEnd_append h, trimEnd_eq_self hcs]

/-- Trimming leaves a text without blanks exactly of the same text with blanks around it. -/
theorem trim_eq_iff {core text : String} (h : ∀ c ∈ core.toList, isBlank c = false) :
    trim text = core ↔ Padded core text := by
  constructor
  · intro htrim
    obtain ⟨before, hbefore, htext⟩ := exists_append_trimStart text.toList
    obtain ⟨after, hafter, hrest⟩ := exists_trimEnd_append (trimStart text.toList)
    have hcore : trimEnd (trimStart text.toList) = core.toList := by
      rw [← htrim, trim, String.toList_ofList]
    refine ⟨.ofList before, .ofList after, by simpa [isBlankText] using hbefore,
      by simpa [isBlankText] using hafter, String.toList_injective ?_⟩
    rw [String.toList_append, String.toList_append, String.toList_ofList, String.toList_ofList,
      ← hcore, List.append_assoc, ← hrest, ← htext]
  · rintro ⟨before, after, hbefore, hafter, rfl⟩
    rw [trim, String.toList_append, String.toList_append, List.append_assoc,
      trimStart_append hbefore, trimEnd_trimStart_append h hafter, String.ofList_toList]

/-- A letter or digit is one in the other case, too. -/
theorem isAlphanum_toLower (c : Char) : c.toLower.isAlphanum = c.isAlphanum := by
  have hcapitals : ∀ n < 91, 65 ≤ n →
      (Char.ofNat n).toLower.isAlphanum = (Char.ofNat n).isAlphanum := by decide
  by_cases h : 65 ≤ c.toNat ∧ c.toNat < 91
  · rw [← Char.ofNat_toNat c]
    exact hcapitals c.toNat h.2 h.1
  · have hsmall : c.toLower = c :=
      dif_neg fun hcapital => h ⟨hcapital.1, Nat.lt_succ_of_le hcapital.2⟩
    rw [hsmall]

end Text

/-- A title is well formed in any letter case. -/
theorem WellFormedTitle.of_sameLetters {s t : String} (h : WellFormedTitle t)
    (hsame : Text.sameLetters s t) : WellFormedTitle s := by
  have hletters : Text.smallLetters s = Text.smallLetters t := Text.sameLetters_iff.1 hsame
  have hlength : s.length = t.length := by
    have := congrArg List.length hletters
    rwa [Text.smallLetters, Text.smallLetters, List.length_map, List.length_map,
      String.length_toList, String.length_toList] at this
  refine ⟨hlength ▸ h.1, hlength ▸ h.2.1, fun c hc => ?_⟩
  have hlower : c.toLower ∈ Text.smallLetters t := hletters ▸ List.mem_map_of_mem hc
  obtain ⟨c', hc', hcase⟩ := List.mem_map.1 hlower
  rw [← Text.isAlphanum_toLower, ← hcase, Text.isAlphanum_toLower]
  exact h.2.2 c' hc'

namespace Command

/-! ## Texts that are commands -/

/-- The text is the command of a language in some letter case, with any blanks around it. -/
def Asks (text language : String) : Prop :=
  ∃ spelling, Text.sameLetters spelling language ∧ Text.Padded (textFor spelling) text

/-- A text asks for the menu exactly if it is the command for it, with any blanks around it. -/
theorem parse_eq_menu_iff {text : String} {languages : List String} :
    parse text languages = .menu ↔ Text.Padded startText text := by
  have hword : (startText.toList.all fun c => !Text.isBlank c) = true := by decide
  have hblank : ∀ c ∈ startText.toList, Text.isBlank c = false := fun c hc => by
    simpa using List.all_eq_true.1 hword c hc
  rw [← Text.trim_eq_iff hblank, ← String.toList_inj]
  simp only [parse]
  split
  · rename_i h
    exact iff_of_true rfl h
  · rename_i h
    refine iff_of_false (fun hmenu => ?_) h
    split at hmenu
    · cases hmenu
    · split at hmenu <;> cases hmenu

theorem after?_eq_some_iff {word cs rest : List Char} :
    after? word cs = some rest ↔ cs = word ++ rest := by
  constructor
  · intro h
    unfold after? at h
    split at h
    · rename_i hprefix
      obtain ⟨tail, rfl⟩ := List.isPrefixOf_iff_prefix.1 hprefix
      rw [List.drop_left, Option.some.injEq] at h
      rw [h]
    · cases h
  · rintro rfl
    exact after?_append word rest

/-- What a trimmed text asks for, if it is the command of a language. -/
theorem parse_of_trim {text requested : String} {languages : List String}
    (h : Text.trim text = textFor requested) :
    parse text languages =
      ((languages.find? fun l => Text.sameLetters l requested).map start).getD .unknown := by
  have hlonger : (textFor requested).toList ≠ startText.toList := by
    intro heq
    have hlength := congrArg List.length heq
    rw [toList_textFor, List.length_append] at hlength
    have hword : (textFor "").toList.length = startText.toList.length + 1 := by decide
    omega
  simp only [parse, h, if_neg hlonger, after?_eq_some_iff.2 (toList_textFor requested),
    String.ofList_toList]
  cases languages.find? fun l => Text.sameLetters l requested <;> rfl

/-- A text asks for a language only if it is the command of a text that the language is found by. -/
theorem exists_of_parse_eq_start {text language : String} {languages : List String}
    (h : parse text languages = .start language) :
    ∃ requested, Text.trim text = textFor requested ∧
      (languages.find? fun l => Text.sameLetters l requested) = some language := by
  simp only [parse] at h
  split at h
  · cases h
  split at h
  · cases h
  rename_i requested hafter
  split at h
  · cases h
  rename_i hfound
  cases h
  refine ⟨.ofList requested, String.toList_injective ?_, hfound⟩
  rw [toList_textFor, String.toList_ofList]
  exact after?_eq_some_iff.1 hafter

section Languages

variable {languages : List String} {language : String}

/-- The command of a well-formed title in any letter case is left where blanks around it are
taken off. -/
theorem trim_eq_textFor_iff (hformed : WellFormedTitle language) {spelling text : String}
    (hsame : Text.sameLetters spelling language) :
    Text.trim text = textFor spelling ↔ Text.Padded (textFor spelling) text :=
  Text.trim_eq_iff fun _ hc => not_isBlank_of_mem_textFor (hformed.of_sameLetters hsame) hc

/-- Of accepted languages, the one that a text asks for is the one whose command it is. -/
theorem parse_eq_start_iff (haccepted : Draft.checkTitles [] languages = .ok ()) {text : String} :
    parse text languages = .start language ↔ language ∈ languages ∧ Asks text language := by
  obtain ⟨hformed, hdiffer, -⟩ := Draft.checkTitles_eq_ok_iff.1 haccepted
  constructor
  · intro h
    obtain ⟨requested, htrim, hfound⟩ := exists_of_parse_eq_start h
    have hmem := List.mem_of_find?_eq_some hfound
    have hfor := List.find?_some hfound
    have hsame : Text.sameLetters requested language :=
      Text.sameLetters_iff.2 (Text.sameLetters_iff.1 hfor).symm
    exact ⟨hmem, requested, hsame, (trim_eq_textFor_iff (hformed language hmem) hsame).1 htrim⟩
  · rintro ⟨hmem, spelling, hsame, hpadded⟩
    have htrim := (trim_eq_textFor_iff (hformed language hmem) hsame).2 hpadded
    have hletters : (fun l => Text.sameLetters l spelling) =
        fun l => Text.sameLetters l language := by
      funext l
      rw [Text.sameLetters, Text.sameLetters, Text.sameLetters_iff.1 hsame]
    rw [parse_of_trim htrim, hletters, Text.find?_sameLetters hmem hdiffer]
    rfl

theorem asks_textFor (language : String) : Asks (textFor language) language :=
  ⟨language, Text.sameLetters_self language, .self _⟩

/-- The menu has one line per language below its first. -/
theorem textLines_menuText (hformed : ∀ l ∈ languages, WellFormedTitle l) :
    Serve.textLines (menuText languages) = "Choose a language:" :: languages.map textFor := by
  have hlines : ∀ line ∈ ("Choose a language:" :: languages.map textFor).map String.toList,
      '\n' ∉ line := by
    rw [List.map_cons, List.forall_mem_cons]
    refine ⟨by decide, ?_⟩
    simp only [List.mem_map]
    rintro _ ⟨_, ⟨l, hl, rfl⟩, rfl⟩ hmem
    have hblank := not_isBlank_of_mem_textFor (hformed l hl) hmem
    exact absurd hblank (by decide)
  rw [Serve.textLines, menuText, String.toList_intercalate]
  change (List.splitOn '\n' (['\n'].intercalate _)).map _ = _
  rw [List.splitOn_intercalate '\n' hlines (by simp), List.map_map]
  simp [Function.comp_def]

/-- Each line of the menu below its first asks for its own language. -/
theorem parse_menu (haccepted : Draft.checkTitles [] languages = .ok ()) :
    (languages.map textFor).map (fun line => parse line languages) = languages.map start := by
  rw [List.map_map, List.map_inj_left]
  intro l hl
  rw [Function.comp_apply, parse_eq_start_iff haccepted]
  exact ⟨hl, asks_textFor l⟩

end Languages

end Command

/-! ## The start stage -/

/-- A valid document has languages that are accepted. -/
theorem Document.Valid.checkTitles {d : Document} (h : d.Valid) :
    Draft.checkTitles [] d.languages = .ok () :=
  Draft.checkTitles_eq_ok_iff.2 ⟨h .titleWellFormed, h .titleUnique, by simp⟩

/-- A stage of the graph of a valid document is shown in every language with all that it has. -/
theorem Document.Valid.render_stage {d : Document} (h : d.Valid) (hindexed : d.graph.Indexed)
    {stage : Graph.Stage} (hstage : stage ∈ d.graph.stages) {language : String}
    (hl : language ∈ d.languages) :
    ∃ label, stage.text.get? language = some label ∧
      d.graph.render stage.procedure stage.id language =
        some ⟨stage, language, label, stage.mode, stage.layouts.get? language⟩ := by
  have hfound : d.graph.stage? stage.procedure stage.id = some stage := by
    rw [Graph.stage?, hindexed.stageOfKey?_eq_some_iff]
    exact ⟨hstage, Document.key_of_mem_stages hstage⟩
  obtain ⟨p, s, first, hx, rfl, -⟩ := Document.exists_staged hstage
  obtain ⟨hp, hs⟩ := Document.mem_staged_iff.1 hx
  obtain ⟨label, hlabel⟩ := Option.isSome_iff_exists.1 (h.contains_text hp hs hl)
  have hlabel' : (d.compiledStage p s first).text.get? language = some label := hlabel
  refine ⟨label, hlabel', ?_⟩
  simp only [Graph.render, hfound, Option.bind_eq_bind, Option.bind_some, hlabel']
  rfl

namespace Router

variable {σ : Type} {r : Router σ} {start : StartSettings} {chat : Int64} {text language : String}
  {page : Rendered}

/-- A text that asks for a language is answered with the start stage, and nothing else happens. -/
theorem effect_onMessage_of_render (hparse : Command.parse text r.languages = .start language)
    (hpage : r.graph.render start.procedure start.stage language = some page) (world : σ) :
    (r.onMessage start chat text).effect world =
      (((r.transport.send chat page.content).effect world).1.map fun _ => .start language,
        ((r.transport.send chat page.content).effect world).2) := by
  simp only [onMessage, hparse, answer, hpage, tell, Act.effect_bind, Act.effect_pure]
  rcases (r.transport.send chat page.content).effect world with ⟨e | m, left⟩ <;> rfl

/-- The one call that answers such a text sends the start stage. -/
theorem does_onMessage_of_render {Ready : σ → Prop} {journal : σ → List Call}
    (hjournal : r.transport.Journals Ready journal)
    (hparse : Command.parse text r.languages = .start language)
    (hpage : r.graph.render start.procedure start.stage language = some page) :
    (r.onMessage start chat text).Does Ready journal
      fun _ calls => calls = [.send chat page.content] := by
  have hcalls : r.answerCalls start chat (.start language) = [.send chat page.content] := by
    rw [answerCalls, hpage]
    rfl
  have hdoes := does_onMessage hjournal start chat text
  rwa [hparse, hcalls] at hdoes

end Router

/-- Commands and the menu agree. Of accepted languages, a text asks for the one whose command it is,
in any letter case and with any blanks around it, and no other text asks for a language; the menu is
asked for by its own command alone, and has one line per language below its first, in order, each of
which asks for its language. Where the languages are those of a valid document, such a text is
answered by sending the start stage to the chat, once, with its text, mode and layout in the
language that was asked for. -/
theorem Command.agrees_with_menu :
    (∀ languages, Draft.checkTitles [] languages = .ok () →
      (∀ text language, parse text languages = .start language ↔
        language ∈ languages ∧ Asks text language) ∧
      (∀ text, parse text languages = .menu ↔ Text.Padded startText text) ∧
      Serve.textLines (menuText languages) = "Choose a language:" :: languages.map textFor ∧
      (languages.map textFor).map (fun line => parse line languages) = languages.map start) ∧
    ∀ (draft : Draft) (d : Document) (g : Graph), draft.validate = .ok d → Graph.compile d = .ok g →
      ∀ stage ∈ g.stages, ∀ language ∈ d.languages, ∃ label,
        stage.text.get? language = some label ∧
        ∀ (σ : Type) (r : Router σ) (start : StartSettings), r.graph = g →
          start.procedure = stage.procedure → start.stage = stage.id →
          ∀ chat text, Asks text language →
            let content : Content := ⟨label, stage.mode, stage.layouts.get? language⟩
            (∀ world, (r.onMessage start chat text).effect world =
              (((r.transport.send chat content).effect world).1.map fun _ => .start language,
                ((r.transport.send chat content).effect world).2)) ∧
            ∀ Ready journal, r.transport.Journals Ready journal →
              (r.onMessage start chat text).Does Ready journal
                fun _ calls => calls = [.send chat content] := by
  refine ⟨fun languages haccepted => ⟨fun text language => parse_eq_start_iff haccepted,
    fun text => parse_eq_menu_iff, ?_, parse_menu haccepted⟩, ?_⟩
  · exact textLines_menuText (Draft.checkTitles_eq_ok_iff.1 haccepted).1
  · intro draft d g hvalidate hcompile stage hstage language hl
    have hvalid := Document.valid_of_validate hvalidate
    obtain ⟨hcompilable, rfl⟩ := Graph.compile_eq_ok_iff.1 hcompile
    obtain ⟨label, hlabel, hpage⟩ := hvalid.render_stage hcompilable.indexed hstage hl
    refine ⟨label, hlabel, fun σ r start hgraph hprocedure hid chat text hasks => ?_⟩
    have hlanguages : r.languages = d.languages := by
      rw [Router.languages, hgraph, Document.languages_graph]
    have hparse : parse text r.languages = .start language := by
      rw [hlanguages]
      exact (parse_eq_start_iff hvalid.checkTitles).2 ⟨hl, hasks⟩
    rw [← hgraph, ← hprocedure, ← hid] at hpage
    exact ⟨Router.effect_onMessage_of_render hparse hpage, fun Ready journal hjournal =>
      Router.does_onMessage_of_render hjournal hparse hpage⟩

/-- The stage of the small document is sent to whoever asks for it, in capital letters and with a
line end. -/
theorem Command.starts_loop :
    parse "\t/start_fR2 " ["en", "Fr2"] = .start "Fr2" ∧
    ∃ content : Content, content.text = "A" ∧ ∀ world : Recorder,
      (((Router.new Recorder.transport Document.loop.graph).onMessage ⟨"1", "1", "What?"⟩ 7
        "/start_EN\n").effect world).2.calls = world.calls ++ [.send 7 content] := by
  have hread : Document.loop.draft.validate = .ok Document.loop :=
    Checks.toOption_eq_some_iff.1 (by decide +kernel)
  have hcompile : Graph.compile Document.loop = .ok Document.loop.graph :=
    Graph.compile_eq_ok_iff.2
      ⟨(Document.valid_of_validate hread).compilable (by decide +kernel), rfl⟩
  have hstages : Document.loop.graph.stages.toList.map (fun s => (s.procedure, s.id, s.text)) =
      [("1", "1", .ofList [("en", "A")])] := by decide +kernel
  obtain ⟨stage, hstage, hids⟩ := List.mem_map.1 (hstages ▸ List.mem_singleton_self _)
  obtain ⟨hprocedure, hrest⟩ := Prod.mk.inj hids
  obtain ⟨hid, htext⟩ := Prod.mk.inj hrest
  obtain ⟨hspellings, hsends⟩ := Command.agrees_with_menu
  constructor
  · refine ((hspellings ["en", "Fr2"] (by decide)).1 _ _).2 ⟨by decide, "fR2", by decide, ?_⟩
    exact ⟨"\t", " ", by decide, by decide, by decide⟩
  · obtain ⟨label, hlabel, hanswer⟩ := hsends _ _ _ hread hcompile stage
      (Array.mem_toList_iff.1 hstage) "en" (by decide)
    rw [htext] at hlabel
    obtain rfl : "A" = label := Option.some.inj hlabel
    refine ⟨⟨"A", stage.mode, stage.layouts.get? "en"⟩, rfl, fun world => ?_⟩
    obtain ⟨-, hdoes⟩ := hanswer Recorder (.new Recorder.transport Document.loop.graph)
      ⟨"1", "1", "What?"⟩ rfl hprocedure.symm hid.symm 7 "/start_EN\n"
      ⟨"EN", by decide, "", "\n", by decide, by decide, by decide⟩
    obtain ⟨-, calls, hcalls, hjournal⟩ := hdoes _ _ Recorder.journals world trivial
    rw [hjournal, hcalls]

end ButtonDialog
