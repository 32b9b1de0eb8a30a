import ButtonDialog.Proofs.Routing.Clicks

/-! What the router does, written down.

    A router that is watched keeps a list beside its world. Before it runs a handler or calls the
    transport it adds this to the list; what a handler does by itself is not on it. Watching changes
    nothing else, so the list tells what the router does in what order, whatever the handlers and
    the transport are. -/

namespace ButtonDialog

namespace NameTable

variable {α β : Type}

/-- The table with its values changed. -/
def map (f : α → β) (t : NameTable α) : NameTable β :=
  ⟨t.rows.map fun row => (row.1, f row.2), List.pairwise_map.2 (t.ascending.imp id)⟩

@[simp] theorem get?_map (f : α → β) (t : NameTable α) (name : String) :
    (t.map f).get? name = (t.get? name).map f := by
  rw [get?, get?, map, List.find?_map, Option.map_map, Option.map_map]
  rfl

@[simp] theorem contains_map (f : α → β) (t : NameTable α) (name : String) :
    (t.map f).contains name = t.contains name := by
  rw [contains, contains, get?_map, Option.isSome_map]

end NameTable

/-- What a router does: it runs a handler for a click, or it calls the transport. -/
inductive Deed (σ : Type) where
  | run (handler : Handler σ) (click : Click)
  | call (c : Call)

namespace Act

variable {σ α : Type}

/-- The action beside a list of deeds, to which this one is added first. -/
def noted (deed : Deed σ) (a : Act σ α) : Act (σ × List (Deed σ)) α := do
  modifyWorld fun watched => ((), watched.1, watched.2 ++ [deed])
  a.onPart Prod.fst fun world watched => (world, watched.2)

@[simp] theorem effect_noted (deed : Deed σ) (a : Act σ α) (world : σ) (past : List (Deed σ)) :
    (a.noted deed).effect (world, past) =
      ((a.effect world).1, (a.effect world).2, past ++ [deed]) := rfl

end Act

namespace Router

variable {σ : Type}

/-- The handler, noted when it runs. It has the transport without the list. -/
def watchedHandler (r : Router σ) (handler : Handler σ) : Handler (σ × List (Deed σ)) :=
  fun _ u click => (handler r.transport u click).noted (.run handler click)

/-- The router with a list of what it does. -/
def watched (r : Router σ) : Router (σ × List (Deed σ)) where
  transport := {
    send chat content := (r.transport.send chat content).noted (.call (.send chat content))
    edit target content := (r.transport.edit target content).noted (.call (.edit target content)) }
  graph := r.graph
  handlers := r.handlers.map r.watchedHandler

/-- What the router does on an update, in order. -/
def deeds (r : Router σ) (u : Update) (world : σ) : List (Deed σ) :=
  ((r.watched.onUpdate u).effect (world, [])).2.2

/-- The run of the handler of a choice, if it has one. -/
def handlerRun (r : Router σ) (c : Graph.Choice) (language : String) : List (Deed σ) :=
  ((r.handlers.get? c.key).map fun handler => .run handler (click c language)).toList

variable {r : Router σ} {u : Update} {c : Graph.Choice} {language : String}

/-! ## Updates that click no choice -/

theorem effect_onUpdate_of_ignored {reason : IgnoreReason} (h : r.resolve u = .error reason)
    (world : σ) : (r.onUpdate u).effect world = (.ok (.ignored reason), world) := by
  rw [onUpdate, h]
  rfl

theorem effect_watched_of_ignored {reason : IgnoreReason} (h : r.resolve u = .error reason)
    (world : σ) (past : List (Deed σ)) :
    (r.watched.onUpdate u).effect (world, past) = (.ok (.ignored reason), world, past) :=
  effect_onUpdate_of_ignored (r := r.watched) h _

/-! ## Updates that click a choice -/

theorem effect_runHandler_watched (world : σ) (past : List (Deed σ)) :
    (r.watched.runHandler u c language).effect (world, past) =
      (((r.runHandler u c language).effect world).1, ((r.runHandler u c language).effect world).2,
        past ++ r.handlerRun c language) := by
  have hlookup : r.watched.handlers.get? c.key = (r.handlers.get? c.key).map r.watchedHandler :=
    NameTable.get?_map _ _ _
  rw [runHandler, runHandler, handlerRun, hlookup]
  cases r.handlers.get? c.key with
  | none => simp
  | some handler =>
    simp only [Option.map_some, watchedHandler, Act.effect_bind, Act.effect_noted,
      Option.toList_some]
    rcases (handler r.transport u (click c language)).effect world with ⟨e | verdict, left⟩
    · rfl
    · rfl

variable {world left : σ} {past : List (Deed σ)}

theorem effect_watched_of_error (hresolve : r.resolve u = .ok (c, language)) {e : HandlerError}
    (hhandler : (r.runHandler u c language).effect world = (.error e, left)) :
    (r.watched.onUpdate u).effect (world, past) =
      (.error (.handler e), left, past ++ r.handlerRun c language) := by
  rw [effect_onUpdate (r := r.watched) hresolve]
  refine effect_route_of_error ?_
  rw [effect_runHandler_watched, hhandler]

theorem effect_watched_of_halt (hresolve : r.resolve u = .ok (c, language)) {verdict : Verdict}
    {halt : Halt} (hhandler : (r.runHandler u c language).effect world = (.ok verdict, left))
    (hhalt : r.destination u c language verdict = .error halt) :
    (r.watched.onUpdate u).effect (world, past) =
      (.ok (.handled (r.handlers.contains c.key)), left, past ++ r.handlerRun c language) := by
  have hcontains : r.watched.handlers.contains c.key = r.handlers.contains c.key :=
    NameTable.contains_map _ _ _
  have hwatched : (r.watched.runHandler u c language).effect (world, past) =
      (.ok verdict, left, past ++ r.handlerRun c language) := by
    rw [effect_runHandler_watched, hhandler]
  rw [effect_onUpdate (r := r.watched) hresolve, ← hcontains]
  exact effect_route_of_halt hwatched hhalt

theorem effect_watched_of_destination (hresolve : r.resolve u = .ok (c, language))
    {verdict : Verdict} {target : MessageRef} {next : String} {page : Rendered}
    (hhandler : (r.runHandler u c language).effect world = (.ok verdict, left))
    (hdestination : r.destination u c language verdict = .ok (target, next, page)) :
    (r.watched.onUpdate u).effect (world, past) =
      (((r.onUpdate u).effect world).1, ((r.onUpdate u).effect world).2,
        past ++ r.handlerRun c language ++ [.call (.edit target page.content)]) := by
  have hwatched : (r.watched.runHandler u c language).effect (world, past) =
      (.ok verdict, left, past ++ r.handlerRun c language) := by
    rw [effect_runHandler_watched, hhandler]
  rw [effect_onUpdate (r := r.watched) hresolve, effect_onUpdate hresolve,
    effect_route_of_destination (r := r.watched) hwatched hdestination,
    effect_route_of_destination hhandler hdestination]
  simp only [watched, Act.effect_noted]
  rcases (r.transport.edit target page.content).effect left with ⟨e | ⟨⟩, after⟩
  · rfl
  · rfl

theorem deeds_of_error (hresolve : r.resolve u = .ok (c, language)) {e : HandlerError}
    (hhandler : (r.runHandler u c language).effect world = (.error e, left)) :
    r.deeds u world = r.handlerRun c language := by
  rw [deeds, effect_watched_of_error hresolve hhandler, List.nil_append]

theorem deeds_of_halt (hresolve : r.resolve u = .ok (c, language)) {verdict : Verdict} {halt : Halt}
    (hhandler : (r.runHandler u c language).effect world = (.ok verdict, left))
    (hhalt : r.destination u c language verdict = .error halt) :
    r.deeds u world = r.handlerRun c language := by
  rw [deeds, effect_watched_of_halt hresolve hhandler hhalt, List.nil_append]

theorem deeds_of_destination (hresolve : r.resolve u = .ok (c, language)) {verdict : Verdict}
    {target : MessageRef} {next : String} {page : Rendered}
    (hhandler : (r.runHandler u c language).effect world = (.ok verdict, left))
    (hdestination : r.destination u c language verdict = .ok (target, next, page)) :
    r.deeds u world = r.handlerRun c language ++ [.call (.edit target page.content)] := by
  rw [deeds, effect_watched_of_destination hresolve hhandler hdestination, List.nil_append]

/-- When a choice is clicked, its handler is the only one that runs, and what follows are calls. -/
theorem exists_deeds_eq (hresolve : r.resolve u = .ok (c, language)) (world : σ) :
    ∃ calls : List Call, r.deeds u world = r.handlerRun c language ++ calls.map .call := by
  rcases hhandler : (r.runHandler u c language).effect world with ⟨e | verdict, left⟩
  · exact ⟨[], by rw [deeds_of_error hresolve hhandler, List.map_nil, List.append_nil]⟩
  · cases hdestination : r.destination u c language verdict with
    | error halt =>
      exact ⟨[], by
        rw [deeds_of_halt hresolve hhandler hdestination, List.map_nil, List.append_nil]⟩
    | ok destination =>
      obtain ⟨target, next, page⟩ := destination
      exact ⟨[.edit target page.content], deeds_of_destination hresolve hhandler hdestination⟩

/-- Watching changes nothing, and the list that there is goes on with what the router does. -/
theorem effect_watched (r : Router σ) (u : Update) (world : σ) (past : List (Deed σ)) :
    (r.watched.onUpdate u).effect (world, past) =
      (((r.onUpdate u).effect world).1, ((r.onUpdate u).effect world).2,
        past ++ r.deeds u world) := by
  cases hresolve : r.resolve u with
  | error reason =>
    rw [deeds, effect_watched_of_ignored hresolve, effect_watched_of_ignored hresolve,
      effect_onUpdate_of_ignored hresolve, List.append_nil]
  | ok clicked =>
    obtain ⟨c, language⟩ := clicked
    rcases hhandler : (r.runHandler u c language).effect world with ⟨e | verdict, left⟩
    · rw [deeds_of_error hresolve hhandler, effect_watched_of_error hresolve hhandler,
        effect_onUpdate hresolve, effect_route_of_error hhandler]
    · cases hdestination : r.destination u c language verdict with
      | error halt =>
        rw [deeds_of_halt hresolve hhandler hdestination,
          effect_watched_of_halt hresolve hhandler hdestination, effect_onUpdate hresolve,
          effect_route_of_halt hhandler hdestination]
      | ok destination =>
        obtain ⟨target, next, page⟩ := destination
        rw [deeds_of_destination hresolve hhandler hdestination,
          effect_watched_of_destination hresolve hhandler hdestination, List.append_assoc]

end Router

end ButtonDialog
