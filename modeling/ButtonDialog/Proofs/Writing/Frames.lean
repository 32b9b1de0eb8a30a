import ButtonDialog.Service.Program
import ButtonDialog.Proofs.Serving.Lines
import ButtonDialog.Proofs.Serving.Transports
import ButtonDialog.Proofs.Writing.Values

/-! The output of the console, read back.

    Calls on the console leave one line each, in order. Whatever the texts and payloads hold, no
    line end stands within a line, and the line tells the call: its kind, the message, and all of
    the content. -/

namespace ButtonDialog

/-- Makes a call. The answer is the message that shows its content. -/
def Transport.make {σ : Type} (t : Transport σ) : Call → Act σ (Except TransportError MessageRef)
  | .send chat content => t.send chat content
  | .edit target content => do return (← t.edit target content).map fun _ => target

/-- Makes calls in order. -/
def Transport.makeAll {σ : Type} (t : Transport σ) (calls : List Call) :
    Act σ (List (Except TransportError MessageRef)) :=
  calls.mapM t.make

/-! ## Reading layouts -/

namespace Json

/-- The value under a name of an object. -/
def member? (v : Json) (name : String) : Option Json := v.toTable?.bind (·.get? name)

@[simp] theorem member?_object (members : List (String × Json)) (name : String) :
    (object members).member? name =
      (members.foldl (fun t m => t.insert m.1 m.2) NameTable.empty).get? name := rfl

/-- The elements of an array, each read by `f`. -/
def toList? {α : Type} (f : Json → Option α) (v : Json) : Option (List α) := do
  (← v.toArray?).mapM f

section Lists

variable {α : Type} {g : α → Json}

theorem toList?_array {f : Json → Option α} (h : ∀ a, f (g a) = some a) (as : List α) :
    (array (as.map g)).toList? f = some as := by
  rw [toList?, toArray?, Option.bind_eq_bind, Option.bind_some, Checks.mapM_eq_some_iff,
    List.forall₂_map_left_iff]
  exact List.forall₂_same.2 fun a _ => h a

theorem fits_array {room : Nat} (h : ∀ a, Fits room (g a)) (as : List α) :
    Fits (room + 1) (array (as.map g)) :=
  .array (List.forall_mem_map.2 fun a _ => h a)

end Lists

end Json

/-- Reads a button. -/
def Button.ofJson? (v : Json) : Option Button := do
  return ⟨← (← v.member? "text").toText?, ← (← v.member? "payload").toText?⟩

/-- Reads a layout. -/
def Layout.ofJson? (v : Json) : Option Layout := do
  return ⟨← (← v.member? "rows").toList? (Json.toList? Button.ofJson?)⟩

theorem Button.ofJson?_toJson (b : Button) : ofJson? b.toJson = some b := by
  simp [ofJson?, toJson, Json.toText?]

theorem Layout.ofJson?_toJson (l : Layout) : ofJson? l.toJson = some l := by
  have hrows := Json.toList?_array (Json.toList?_array Button.ofJson?_toJson) l.rows
  simp [ofJson?, toJson, hrows]

theorem Button.fits_toJson {room : Nat} (b : Button) : Json.Fits (room + 1) b.toJson := by
  refine .object ?_
  simp [Json.Fits.text]

theorem Layout.fits_toJson {room : Nat} (l : Layout) : Json.Fits (room + 4) l.toJson := by
  refine .object (List.forall_mem_singleton.2 ?_)
  exact Json.fits_array (Json.fits_array Button.fits_toJson) l.rows

namespace Console

/-- What a line of the console tells: the kind of the call, the message and the content. -/
structure Frame where
  kind : String
  target : MessageRef
  content : Content
  deriving DecidableEq

namespace Frame

/-- The written form. -/
def toJson (f : Frame) : Json :=
  .object [("type", .text f.kind), ("chat_id", .int64 f.target.chat),
    ("message_id", .int64 f.target.message), ("text", .text f.content.text),
    ("mode", .text f.content.mode.name), ("layout", .optional Layout.toJson f.content.layout)]

/-- Reads a frame from a JSON value. -/
def ofJson? (v : Json) : Option Frame := do
  let kind ← (← v.member? "type").toText?
  let chat ← (← v.member? "chat_id").toInt64?
  let message ← (← v.member? "message_id").toInt64?
  let text ← (← v.member? "text").toText?
  let mode ← TextMode.ofName? (← (← v.member? "mode").toText?)
  let layout ← (← v.member? "layout").nullable? Layout.ofJson?
  return ⟨kind, ⟨chat, message⟩, ⟨text, mode, layout⟩⟩

/-- Reads a frame from a line. -/
def decode? (line : String) : Option Frame := (Json.read line).toOption.bind ofJson?

theorem line_eq (f : Frame) : line f.kind f.target f.content = f.toJson.render := rfl

theorem ofJson?_toJson (f : Frame) : ofJson? f.toJson = some f := by
  have hlayout := Json.nullable?_optional Layout.ofJson?_toJson nofun f.content.layout
  simp [ofJson?, toJson, Json.toText?, Json.toInt64?, Json.int64, hlayout]

theorem fits_toJson (f : Frame) : Json.Fits Json.maxDepth f.toJson := by
  refine .object ?_
  simp [Json.Fits.text, Json.fits_int64, Json.fits_optional Layout.fits_toJson]

/-- A line tells this frame: it is read back, and the layout is `null` when there is none and only
then. -/
structure ToldBy (f : Frame) (line : String) : Prop where
  read : decode? line = some f
  layout : ∃ v, Json.read line = .ok v ∧
    (v.member? "layout" = some .null ↔ f.content.layout = none)

theorem toldBy_line (f : Frame) : f.ToldBy (line f.kind f.target f.content) := by
  have hread : Json.read (line f.kind f.target f.content) = .ok f.toJson := by
    rw [line_eq]
    exact f.fits_toJson.read_render
  have hlayout : f.toJson.member? "layout" = some (.optional Layout.toJson f.content.layout) := by
    simp [toJson]
  refine ⟨?_, f.toJson, hread, ?_⟩
  · rw [decode?, hread]
    exact f.ofJson?_toJson
  · rw [hlayout]
    cases f.content.layout <;> simp [Json.optional, Layout.toJson]

theorem map_decode?_of_toldBy {frames : List Frame} {lines : List String}
    (h : List.Forall₂ ToldBy frames lines) : lines.map decode? = frames.map some := by
  induction h with
  | nil => rfl
  | cons hfirst _ ih => rw [List.map_cons, List.map_cons, ih, hfirst.read]

end Frame

/-! ## Calls -/

/-- These are the frames of the calls, after as many messages as `sent` have been sent: a message
that is sent gets the next number, and an edit tells the message it is for. -/
inductive Framed : Nat → List Call → List Frame → Prop
  | nil {sent : Nat} : Framed sent [] []
  | send {sent : Nat} {chat message : Int64} {content : Content} {calls : List Call}
    {frames : List Frame} : message.toInt = sent + 1 → Framed (sent + 1) calls frames →
    Framed sent (.send chat content :: calls) (⟨"send", ⟨chat, message⟩, content⟩ :: frames)
  | edit {sent : Nat} {target : MessageRef} {content : Content} {calls : List Call}
    {frames : List Frame} : Framed sent calls frames →
    Framed sent (.edit target content :: calls) (⟨"edit", target, content⟩ :: frames)

/-- The frames of calls, the messages that are sent numbered from a number on. -/
def framesFrom : Int64 → List Call → List Frame
  | _, [] => []
  | next, .send chat content :: calls =>
    ⟨"send", ⟨chat, next⟩, content⟩ :: framesFrom (next + 1) calls
  | next, .edit target content :: calls => ⟨"edit", target, content⟩ :: framesFrom next calls

end Console

/-- Whether a call sends a message. -/
def Call.isSend : Call → Bool
  | .send .. => true
  | .edit .. => false

namespace Console

theorem spelled_eq (next : Int64) (calls : List Call) :
    spelled next calls = (framesFrom next calls).map fun f => line f.kind f.target f.content := by
  induction calls generalizing next with
  | nil => rfl
  | cons call calls ih =>
    cases call with
    | send chat content => rw [spelled, framesFrom, ih, List.map_cons]
    | edit target content => rw [spelled, framesFrom, ih, List.map_cons]

/-- The lines of calls tell their frames. -/
theorem toldBy_spelled (next : Int64) (calls : List Call) :
    List.Forall₂ Frame.ToldBy (framesFrom next calls) (spelled next calls) := by
  rw [spelled_eq, List.forall₂_map_right_iff]
  exact List.forall₂_same.2 fun f _ => f.toldBy_line

theorem framed_framesFrom {calls : List Call} {next : Int64} {sent : Nat}
    (hnext : calls.any Call.isSend → next.toInt = sent + 1)
    (hroom : sent + calls.countP Call.isSend < Nat.pow 2 63) :
    Framed sent calls (framesFrom next calls) := by
  induction calls generalizing next sent with
  | nil => exact .nil
  | cons call calls ih =>
    cases call with
    | send chat content =>
      have hnumber : next.toInt = sent + 1 := hnext rfl
      have hlimit : Nat.pow 2 63 = 9223372036854775808 := rfl
      rw [List.countP_cons_of_pos rfl] at hroom
      refine .send hnumber (ih (fun hmore => ?_) (by omega))
      -- a message is still to be sent, so this number was not the last one
      have hpos : 0 < calls.countP Call.isSend := by simpa [List.countP_pos_iff] using hmore
      have hleft : next ≠ Int64.maxValue := by
        rintro rfl
        rw [Int64.toInt_maxValue] at hnumber
        omega
      rw [toInt_add_one hleft, hnumber]
      rfl
    | edit target content => exact .edit (ih hnext hroom)

theorem effect_make_send {c : Console} (h : c.Writes) (chat : Int64) (content : Content) :
    (transport.make (.send chat content)).effect c =
      (.ok ⟨chat, c.next⟩, c.wrote (.send chat content)) := by
  -- taking a number does not keep the console from writing
  have hwrites : c.number.2.Writes := h
  rw [Transport.make, effect_send, write_of_writes hwrites]
  rfl

theorem effect_make_edit {c : Console} (h : c.Writes) (target : MessageRef) (content : Content) :
    (transport.make (.edit target content)).effect c =
      (.ok target, c.wrote (.edit target content)) := by
  have hwrite : (transport.edit target content).effect c =
      (.ok (), c.wrote (.edit target content)) :=
    write_of_writes h _
  rw [Transport.make, Act.effect_bind, hwrite]
  rfl

/-- Every call succeeds. The message of a call is the one that its frame tells. -/
theorem effect_makeAll {c : Console} (h : c.Writes) (calls : List Call) :
    (transport.makeAll calls).effect c =
      ((framesFrom c.next calls).map fun f => .ok f.target, c.after calls) := by
  induction calls generalizing c with
  | nil => rfl
  | cons call calls ih =>
    have hrest := ih (writes_wrote h call)
    rw [Transport.makeAll] at hrest
    rw [Transport.makeAll, List.mapM_cons, Act.effect_bind]
    cases call with
    | send chat content =>
      rw [effect_make_send h, Act.effect_bind, hrest]
      rfl
    | edit target content =>
      rw [effect_make_edit h, Act.effect_bind, hrest]
      rfl

/-- Whatever is sent and edited on a console that is fresh, as long as there are numbers for the
messages: the output has one line for each call, in the order of the calls, and nothing after its
last line end. Each line tells its call. The first message that is sent has the number one, the next
the number two, and an edit takes no number. Every call succeeds, and sending answers the message
that the line tells. -/
theorem frames_every_call (calls : List Call) (hroom : calls.countP Call.isSend < Nat.pow 2 63) :
    ∃ frames lines after, Framed 0 calls frames ∧
      (transport.makeAll calls).effect .fresh = (frames.map fun f => .ok f.target, after) ∧
      Serve.textLines (Program.outputOf after) = lines ++ [""] ∧
      List.Forall₂ Frame.ToldBy frames lines := by
  have hfresh : Console.fresh.Writes := rfl
  have hlines : (Console.fresh.after calls).lines = spelled 1 calls := by
    rw [lines_after]
    exact List.nil_append _
  refine ⟨framesFrom 1 calls, (Console.fresh.after calls).lines, Console.fresh.after calls,
    framed_framesFrom (fun _ => rfl) ?_, effect_makeAll hfresh calls, ?_, ?_⟩
  · rwa [Nat.zero_add]
  · refine Serve.textLines_join fun l hl => ?_
    rw [hlines, spelled_eq] at hl
    obtain ⟨f, -, rfl⟩ := List.mem_map.1 hl
    rw [Frame.line_eq]
    exact f.toJson.lineEnd_notMem_render
  · rw [hlines]
    exact toldBy_spelled 1 calls

/-- Two messages and an edit before them, with characters that a line must not hold as they are. -/
def mixedCalls : List Call :=
  [.edit ⟨-5, 9⟩ ⟨"one\ntwo", .html, none⟩,
    .send 7 ⟨"say \"hi\" \\ \x00\x1f", .plain, some ⟨[[⟨"Go\r", "key\nen"⟩], []]⟩⟩,
    .send (-3) ⟨"", .markdownV2, some ⟨[]⟩⟩]

theorem frames_mixedCalls :
    mixedCalls.countP Call.isSend < Nat.pow 2 63 ∧
    ∃ lines after, (transport.makeAll mixedCalls).effect .fresh =
        ([.ok ⟨-5, 9⟩, .ok ⟨7, 1⟩, .ok ⟨-3, 2⟩], after) ∧
      Serve.textLines (Program.outputOf after) = lines ++ [""] ∧
      lines.map Frame.decode? = [some ⟨"edit", ⟨-5, 9⟩, ⟨"one\ntwo", .html, none⟩⟩,
        some ⟨"send", ⟨7, 1⟩,
          ⟨"say \"hi\" \\ \x00\x1f", .plain, some ⟨[[⟨"Go\r", "key\nen"⟩], []]⟩⟩⟩,
        some ⟨"send", ⟨-3, 2⟩, ⟨"", .markdownV2, some ⟨[]⟩⟩⟩] := by
  have hroom : mixedCalls.countP Call.isSend < Nat.pow 2 63 := by decide
  refine ⟨hroom, ?_⟩
  obtain ⟨frames, lines, after, hframes, heffect, houtput, htold⟩ :=
    frames_every_call mixedCalls hroom
  unfold mixedCalls at hframes
  cases hframes with
  | edit hframes =>
    cases hframes with
    | @send _ _ first _ _ _ hfirst hframes =>
      cases hframes with
      | @send _ _ second _ _ _ hsecond hframes =>
        cases hframes
        obtain rfl : first = 1 := Int64.toInt_inj.1 hfirst
        obtain rfl : second = 2 := Int64.toInt_inj.1 hsecond
        exact ⟨lines, after, heffect, houtput, Frame.map_decode?_of_toldBy htold⟩

end Console

end ButtonDialog
