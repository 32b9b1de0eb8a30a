import ButtonDialog.Proofs.Routing.Foreign

/-! Handlers that are registered one after another.

    A call puts a handler on the choice that it names, in place of the one that was there, or fails
    and changes nothing. The table goes by keys, and a key is made of whatever texts the call gives;
    that these are the ids of a choice follows from the key as long as digests tell the joined texts
    apart, since the ids of a choice have no bars. -/

namespace ButtonDialog

/-- The ids of a choice, from the procedure down. -/
def Graph.Choice.ids (c : Graph.Choice) : List String := [c.procedure, c.stage, c.id]

/-- The ids of the choices, the ways back among them. -/
def Graph.choiceIds (g : Graph) : List (List String) := g.choices.toList.map Graph.Choice.ids

/-- A call that puts a handler on the choice of these ids, if it has any. -/
structure Registration (σ : Type) where
  procedure : String
  stage : String
  choice : String
  handler : Handler σ

namespace Registration

variable {σ : Type}

/-- The texts that are given as ids. -/
def ids (call : Registration σ) : List String := [call.procedure, call.stage, call.choice]

/-- The key that they make. -/
def key (call : Registration σ) : String := Key.choice call.procedure call.stage call.choice

/-- The last of the calls that give these ids. -/
def last? (calls : List (Registration σ)) (ids : List String) : Option (Registration σ) :=
  (calls.filter fun call => call.ids == ids).getLast?

end Registration

/-- The digest tells apart the joined ids of the choices and those that the calls give. -/
def Graph.ApartFrom {σ : Type} (g : Graph) (calls : List (Registration σ)) : Prop :=
  Sha256.Apart ((g.choiceIds ++ calls.map Registration.ids).map Key.joined)

instance {σ : Type} (g : Graph) (calls : List (Registration σ)) : Decidable (g.ApartFrom calls) :=
  inferInstanceAs (Decidable (Sha256.Apart _))

namespace Router

variable {σ : Type}

/-- The router after a call. One that fails leaves it as it was. -/
def attempt (r : Router σ) (call : Registration σ) : Router σ :=
  match r.register call.procedure call.stage call.choice call.handler with
  | .ok (registered, _) => registered
  | .error _ => r

/-- The router after calls. -/
def attempts (r : Router σ) (calls : List (Registration σ)) : Router σ := calls.foldl attempt r

variable {r : Router σ} {call : Registration σ}

/-! ## One call -/

/-- A call registers its handler if its key is that of a choice. -/
theorem register_eq_ok (h : (r.graph.choiceOfKey? call.key).isSome) :
    r.register call.procedure call.stage call.choice call.handler =
      .ok ({ r with handlers := r.handlers.insert call.key call.handler },
        registerRecord call.procedure call.stage call.choice (r.handlers.contains call.key)) := by
  obtain ⟨c, hc⟩ := Option.isSome_iff_exists.1 h
  have hfound : r.graph.choiceOfKey? (Key.choice call.procedure call.stage call.choice) = some c :=
    hc
  simp only [register, hfound]
  rfl

/-- Otherwise it fails, with the ids that it was given. -/
theorem register_eq_error (h : ¬ (r.graph.choiceOfKey? call.key).isSome) :
    r.register call.procedure call.stage call.choice call.handler =
      .error (.choiceNotFound call.procedure call.stage call.choice) := by
  have hnone : r.graph.choiceOfKey? (Key.choice call.procedure call.stage call.choice) = none :=
    Option.not_isSome_iff_eq_none.1 h
  simp only [register, hnone]

theorem attempt_of_isSome (h : (r.graph.choiceOfKey? call.key).isSome) :
    r.attempt call = { r with handlers := r.handlers.insert call.key call.handler } := by
  rw [attempt, register_eq_ok h]

theorem attempt_of_not_isSome (h : ¬ (r.graph.choiceOfKey? call.key).isSome) :
    r.attempt call = r := by
  rw [attempt, register_eq_error h]

@[simp] theorem graph_attempt (r : Router σ) (call : Registration σ) :
    (r.attempt call).graph = r.graph := by
  by_cases h : (r.graph.choiceOfKey? call.key).isSome
  · rw [attempt_of_isSome h]
  · rw [attempt_of_not_isSome h]

theorem get?_attempt (r : Router σ) (call : Registration σ) {key : String}
    (hkey : (r.graph.choiceOfKey? key).isSome) :
    (r.attempt call).handlers.get? key =
      if call.key = key then some call.handler else r.handlers.get? key := by
  by_cases h : (r.graph.choiceOfKey? call.key).isSome
  · rw [attempt_of_isSome h, NameTable.get?_insert]
  · have hne : call.key ≠ key := by
      rintro rfl
      exact h hkey
    rw [attempt_of_not_isSome h, if_neg hne]

theorem contains_attempt (r : Router σ) (call : Registration σ) (key : String) :
    (r.attempt call).handlers.contains key = true ↔
      r.handlers.contains key = true ∨ (r.graph.choiceOfKey? key).isSome ∧ call.key = key := by
  by_cases h : (r.graph.choiceOfKey? call.key).isSome
  · rw [attempt_of_isSome h, NameTable.contains_insert]
    refine or_congr_right ⟨?_, fun ⟨_, heq⟩ => heq.symm⟩
    rintro rfl
    exact ⟨h, rfl⟩
  · rw [attempt_of_not_isSome h]
    refine ⟨.inl, ?_⟩
    rintro (hcontains | ⟨hkey, rfl⟩)
    · exact hcontains
    · exact absurd hkey h

/-! ## Calls in a row -/

theorem attempts_cons (r : Router σ) (call : Registration σ) (calls : List (Registration σ)) :
    r.attempts (call :: calls) = (r.attempt call).attempts calls := rfl

@[simp] theorem graph_attempts (r : Router σ) (calls : List (Registration σ)) :
    (r.attempts calls).graph = r.graph := by
  induction calls generalizing r with
  | nil => rfl
  | cons call calls ih => rw [attempts_cons, ih, graph_attempt]

/-- Under the key of a choice there is the handler of the last call for it. -/
theorem get?_attempts (r : Router σ) (calls : List (Registration σ)) {key : String}
    (hkey : (r.graph.choiceOfKey? key).isSome) :
    (r.attempts calls).handlers.get? key =
      ((calls.filter fun call => call.key == key).getLast?.map Registration.handler).or
        (r.handlers.get? key) := by
  induction calls generalizing r with
  | nil => rfl
  | cons call calls ih =>
    rw [attempts_cons, ih _ (by rwa [graph_attempt]), get?_attempt r call hkey]
    by_cases h : call.key = key
    · rw [if_pos h, List.filter_cons_of_pos (by simpa using h), List.getLast?_cons]
      cases (calls.filter fun call => call.key == key).getLast? <;> rfl
    · rw [if_neg h, List.filter_cons_of_neg (by simpa using h)]

/-- A key is in the table if it is that of a choice and of a call. -/
theorem contains_attempts (r : Router σ) (calls : List (Registration σ)) (key : String) :
    (r.attempts calls).handlers.contains key = true ↔ r.handlers.contains key = true ∨
      (r.graph.choiceOfKey? key).isSome ∧ ∃ call ∈ calls, call.key = key := by
  induction calls generalizing r with
  | nil => simp [attempts]
  | cons call calls ih =>
    rw [attempts_cons, ih, graph_attempt, contains_attempt, or_assoc, ← and_or_left]
    simp only [List.mem_cons, exists_eq_or_imp]

end Router

/-! ## From keys to ids -/

namespace Document

variable {σ : Type} {d : Document}

theorem choiceIds_graph (d : Document) : d.graph.choiceIds = d.choiceIds := by
  rw [Graph.choiceIds, choices_graph, compiledChoices, choiceIds, List.map_flatMap]
  refine congrArg d.staged.flatMap (funext fun x => ?_)
  rw [Graph.flatten_compiledRows, List.map_map]
  rfl

theorem key_eq_ofParts_ids {c : Graph.Choice} (hc : c ∈ d.graph.choices) :
    c.key = Key.ofParts c.ids := key_of_mem_choices hc

theorem ids_mem_choiceIds {c : Graph.Choice} (hc : c ∈ d.graph.choices) :
    c.ids ∈ d.graph.choiceIds := List.mem_map_of_mem (Array.mem_toList_iff.2 hc)

/-- Different choices of a graph have different ids. -/
theorem Compilable.nodup_choiceIds (h : d.Compilable) : d.graph.choiceIds.Nodup := by
  have hkeys := h.choiceKeys
  rw [← map_ofParts_choiceIds, ← choiceIds_graph] at hkeys
  exact (List.pairwise_map.1 hkeys).imp fun hne heq => hne (congrArg Key.ofParts heq)

variable {calls : List (Registration σ)}

/-- A call with the key of a choice has its ids. -/
theorem ids_eq_of_key_eq (hapart : d.graph.ApartFrom calls) {call : Registration σ}
    (hcall : call ∈ calls) {c : Graph.Choice} (hc : c ∈ d.graph.choices)
    (hkey : call.key = c.key) : call.ids = c.ids := by
  have hfree : ∀ id ∈ c.ids, Key.BarFree id := by
    have hmem := ids_mem_choiceIds hc
    rw [choiceIds_graph] at hmem
    exact barFree_choiceIds hmem
  refine Key.joined_injective_of_length rfl hfree ?_
  refine Key.joined_eq_of_ofParts_eq hapart (List.mem_append_right _ (List.mem_map_of_mem hcall))
    (List.mem_append_left _ (ids_mem_choiceIds hc)) (by simp [Registration.ids])
    (by simp [Graph.Choice.ids]) ?_
  rw [← key_eq_ofParts_ids hc]
  exact hkey

/-- A call has the key of a choice exactly if it gives the ids of the choice. -/
theorem key_eq_iff (hapart : d.graph.ApartFrom calls) {call : Registration σ} (hcall : call ∈ calls)
    {c : Graph.Choice} (hc : c ∈ d.graph.choices) : call.key = c.key ↔ call.ids = c.ids := by
  refine ⟨ids_eq_of_key_eq hapart hcall hc, fun h => ?_⟩
  rw [key_eq_ofParts_ids hc, ← h]
  rfl

end Document

/-! ## What calls in a row come to -/

namespace Router

variable {σ : Type}

/-- What calls in a row come to, where there were no handlers. A call succeeds if it gives the ids
of a choice. One that does not fails with what it was given, and the router is as before. In the end
there are as many handlers as there are choices that were called for, each counted once, and a click
on a choice runs the handler of the last call for its ids, if there was one, and no other. -/
structure Registers (transport : Transport σ) (g : Graph) (calls : List (Registration σ)) :
    Prop where
  succeeds : ∀ before call after, calls = before ++ call :: after →
    ((∃ registered, ((new transport g).attempts before).register call.procedure call.stage
        call.choice call.handler = .ok registered) ↔ call.ids ∈ g.choiceIds)
  fails : ∀ before call after, calls = before ++ call :: after → call.ids ∉ g.choiceIds →
    ((new transport g).attempts before).register call.procedure call.stage call.choice
        call.handler = .error (.choiceNotFound call.procedure call.stage call.choice) ∧
      ((new transport g).attempts before).attempt call = (new transport g).attempts before
  counts : ∃ called : List (List String), called.Nodup ∧
    (∀ ids, ids ∈ called ↔ ids ∈ g.choiceIds ∧ ∃ call ∈ calls, call.ids = ids) ∧
      ((new transport g).attempts calls).handlers.size = called.length
  runs : ∀ u c language, ((new transport g).attempts calls).resolve u = .ok (c, language) →
    ∀ world, ∃ rest : List Call, ((new transport g).attempts calls).deeds u world =
      ((Registration.last? calls c.ids).map fun call =>
        .run call.handler (click c language)).toList ++ rest.map .call

variable {d : Document} {calls : List (Registration σ)}

/-- The key of a call is that of a choice exactly if its ids are. -/
theorem isSome_choiceOfKey?_iff (hg : d.graph.Indexed) (hapart : d.graph.ApartFrom calls)
    {call : Registration σ} (hcall : call ∈ calls) :
    (d.graph.choiceOfKey? call.key).isSome ↔ call.ids ∈ d.graph.choiceIds := by
  constructor
  · intro hsome
    obtain ⟨c, hc⟩ := Option.isSome_iff_exists.1 hsome
    obtain ⟨hmem, hkey⟩ := hg.choiceOfKey?_eq_some_iff.1 hc
    rw [Document.ids_eq_of_key_eq hapart hcall hmem hkey.symm]
    exact Document.ids_mem_choiceIds hmem
  · intro hids
    obtain ⟨c, hc, heq⟩ := List.mem_map.1 hids
    have hmem := Array.mem_toList_iff.1 hc
    have hkey : c.key = call.key := ((Document.key_eq_iff hapart hcall hmem).2 heq.symm).symm
    rw [hg.choiceOfKey?_eq_some_iff.2 ⟨hmem, hkey⟩]
    rfl

/-- The choices that were called for have the keys of the table. -/
theorem mem_names_attempts_iff (hg : d.graph.Indexed) (hapart : d.graph.ApartFrom calls)
    (transport : Transport σ) (key : String) :
    key ∈ ((new transport d.graph).attempts calls).handlers.names ↔
      key ∈ (d.graph.choiceIds.filter (calls.map Registration.ids).contains).map Key.ofParts := by
  have hnew : (new transport d.graph).handlers.contains key = false := rfl
  rw [NameTable.mem_names_iff, contains_attempts, hnew]
  simp only [Bool.false_eq_true, false_or, List.mem_map, List.mem_filter, List.contains_iff_mem]
  constructor
  · rintro ⟨hsome, call, hcall, rfl⟩
    exact ⟨call.ids, ⟨(isSome_choiceOfKey?_iff hg hapart hcall).1 hsome, call, hcall, rfl⟩, rfl⟩
  · rintro ⟨ids, ⟨hids, call, hcall, rfl⟩, rfl⟩
    exact ⟨(isSome_choiceOfKey?_iff hg hapart hcall).2 hids, call, hcall, rfl⟩

/-- There are as many handlers as there are choices that were called for. -/
theorem size_attempts (h : d.Compilable) (hapart : d.graph.ApartFrom calls)
    (transport : Transport σ) :
    ((new transport d.graph).attempts calls).handlers.size =
      (d.graph.choiceIds.filter (calls.map Registration.ids).contains).length := by
  have hkeys : (d.graph.choiceIds.map Key.ofParts).Nodup := by
    rw [Document.choiceIds_graph, Document.map_ofParts_choiceIds]
    exact h.choiceKeys
  have hnodup :=
    hkeys.sublist ((List.filter_sublist (p := (calls.map Registration.ids).contains)).map _)
  rw [NameTable.size_eq_length hnodup (mem_names_attempts_iff h.indexed hapart transport),
    List.length_map]

/-- A choice has the handler of the last call for its ids. -/
theorem handlerRun_attempts (hg : d.graph.Indexed) (hapart : d.graph.ApartFrom calls)
    (transport : Transport σ) {c : Graph.Choice} (hc : c ∈ d.graph.choices) (language : String) :
    ((new transport d.graph).attempts calls).handlerRun c language =
      ((Registration.last? calls c.ids).map fun call =>
        .run call.handler (click c language)).toList := by
  have hsome : ((new transport d.graph).graph.choiceOfKey? c.key).isSome := by
    have hfound : d.graph.choiceOfKey? c.key = some c := hg.choiceOfKey?_eq_some_iff.2 ⟨hc, rfl⟩
    simp [new, hfound]
  have hlast : (calls.filter fun call => call.key == c.key) =
      calls.filter fun call => call.ids == c.ids := by
    refine List.filter_congr fun call hcall => ?_
    rw [Bool.eq_iff_iff, beq_iff_eq, beq_iff_eq]
    exact Document.key_eq_iff hapart hcall hc
  rw [handlerRun, get?_attempts _ _ hsome, hlast, new, NameTable.get?_empty, Option.or_none,
    Option.map_map]
  rfl

/-- Handlers are registered for exactly the choices that a graph has, whatever texts are given for
ids, and the last one counts. -/
theorem registers_exactly_choices {g : Graph} (hcompile : Graph.compile d = .ok g)
    (transport : Transport σ) (calls : List (Registration σ)) (hapart : g.ApartFrom calls) :
    Registers transport g calls := by
  obtain ⟨hcompilable, rfl⟩ := Graph.compile_eq_ok_iff.1 hcompile
  have hg := hcompilable.indexed
  have hfound : ∀ before call after, calls = before ++ call :: after →
      ((((new transport d.graph).attempts before).graph.choiceOfKey? call.key).isSome ↔
        call.ids ∈ d.graph.choiceIds) := by
    rintro before call after rfl
    rw [graph_attempts]
    exact isSome_choiceOfKey?_iff hg hapart (List.mem_append_right _ List.mem_cons_self)
  refine ⟨fun before call after hcalls => ?_, fun before call after hcalls hnot => ?_,
    ⟨d.graph.choiceIds.filter (calls.map Registration.ids).contains, ?_, fun ids => ?_,
      size_attempts hcompilable hapart transport⟩, fun u c language hresolve world => ?_⟩
  · rw [← hfound before call after hcalls]
    refine ⟨?_, fun hsome => ⟨_, register_eq_ok hsome⟩⟩
    rintro ⟨registered, hregistered⟩
    by_cases hsome :
      (((new transport d.graph).attempts before).graph.choiceOfKey? call.key).isSome
    · exact hsome
    · rw [register_eq_error hsome] at hregistered
      cases hregistered
  · have hnone := mt (hfound before call after hcalls).1 hnot
    exact ⟨register_eq_error hnone, attempt_of_not_isSome hnone⟩
  · exact hcompilable.nodup_choiceIds.sublist List.filter_sublist
  · simp only [List.mem_filter, List.contains_iff_mem, List.mem_map]
  · have hgraph : ((new transport d.graph).attempts calls).graph = d.graph := graph_attempts _ _
    have hclicks := clicks_of_resolve (by rwa [hgraph]) hresolve
    rw [hgraph] at hclicks
    obtain ⟨rest, hrest⟩ := exists_deeds_eq hresolve world
    exact ⟨rest, by rw [hrest, handlerRun_attempts hg hapart transport hclicks.1]⟩

/-- A handler that is replaced, one on a way back, and two on no choice. -/
def twoStagesCalls : List (Registration Recorder) :=
  [⟨"1", "1", "1", fun _ _ _ => return .ok .stay⟩, ⟨"1", "1", "01", fun _ _ _ => return .ok .stay⟩,
    ⟨"1", "2", "ToPrevious", fun _ _ _ => return .ok .stay⟩,
    ⟨"1||1", "|", "", fun _ _ _ => return .ok .stay⟩,
    ⟨"1", "1", "1", fun _ _ _ => return .ok .proceed⟩]

theorem registers_twoStagesCalls :
    Registers Recorder.transport Document.twoStages.graph twoStagesCalls :=
  registers_exactly_choices Document.graph_twoStages _ _ (by decide +kernel)

end Router

end ButtonDialog
