import ButtonDialog.Proofs.Checks
import ButtonDialog.Proofs.Routing.Clicks
import ButtonDialog.Service.HandlerTable
import ButtonDialog.Transport.Console
import ButtonDialog.Transport.Recorder

/-! What messages show.

    A message shows what it was sent with until it is edited, and then what it was edited to; a call
    that fails changes nothing. Every transport can be watched for this. A handler from the settings
    sends a message or none, so it leaves alone what is shown already, as long as the id of a new
    message is new. -/

namespace ButtonDialog

/-- What messages show; nothing where there is no message. -/
def Display : Type := MessageRef → Option Content

namespace Display

/-- The message shows this from now on. -/
def set (shown : Display) (m : MessageRef) (content : Content) : Display :=
  fun other => if other = m then some content else shown other

@[simp] theorem set_self (shown : Display) (m : MessageRef) (content : Content) :
    shown.set m content m = some content := if_pos rfl

theorem set_of_ne (shown : Display) {m other : MessageRef} (content : Content) (h : other ≠ m) :
    shown.set m content other = shown other := if_neg h

/-- What messages show after a call: where it succeeds, its content on the message it is about. -/
def after {α : Type} (shown : Display) (content : Content) (about : α → MessageRef) :
    Except TransportError α → Display
  | .ok a => shown.set (about a) content
  | .error _ => shown

end Display

namespace Act

variable {σ α : Type} {content : Content} {about : α → MessageRef}

/-- A call beside a note of what messages show. -/
def displaying (a : Act σ (Except TransportError α)) (content : Content) (about : α → MessageRef) :
    Act (σ × Display) (Except TransportError α) := do
  let result ← a.onPart Prod.fst fun world noted => (world, noted.2)
  modifyWorld fun noted => ((), noted.1, noted.2.after content about result)
  return result

variable {a : Act σ (Except TransportError α)} {noted left : σ × Display}

/-- The note changes nothing about the call. -/
theorem effect_displaying (a : Act σ (Except TransportError α)) (content : Content)
    (about : α → MessageRef) (noted : σ × Display) :
    (a.displaying content about).effect noted =
      ((a.effect noted.1).1, (a.effect noted.1).2,
        noted.2.after content about (a.effect noted.1).1) := rfl

theorem displaying_ok {result : α}
    (h : (a.displaying content about).effect noted = (.ok result, left)) :
    left.2 = noted.2.set (about result) content := by
  rw [effect_displaying] at h
  obtain ⟨hresult, rfl⟩ := Prod.mk.inj h
  rw [hresult]
  rfl

theorem displaying_error {e : TransportError}
    (h : (a.displaying content about).effect noted = (.error e, left)) : left.2 = noted.2 := by
  rw [effect_displaying] at h
  obtain ⟨hresult, rfl⟩ := Prod.mk.inj h
  rw [hresult]
  rfl

end Act

namespace Transport

variable {σ : Type}

/-- What messages show can be seen in the world of the transport. A call that succeeds shows its
content on the message that it gives or names, and one that fails changes nothing. -/
structure Shows (t : Transport σ) (display : σ → Display) : Prop where
  send : ∀ chat content world m after, (t.send chat content).effect world = (.ok m, after) →
    display after = (display world).set m content
  sendFails : ∀ chat content world e after,
    (t.send chat content).effect world = (.error e, after) → display after = display world
  edit : ∀ m content world after, (t.edit m content).effect world = (.ok (), after) →
    display after = (display world).set m content
  editFails : ∀ m content world e after,
    (t.edit m content).effect world = (.error e, after) → display after = display world

/-- A message that is sent now is a new one. -/
def SendsFresh (t : Transport σ) (display : σ → Display) (world : σ) : Prop :=
  ∀ chat content m after, (t.send chat content).effect world = (.ok m, after) →
    display world m = none

/-- The transport with a note, beside its world, of what messages show. -/
def displayed (t : Transport σ) : Transport (σ × Display) where
  send chat content := (t.send chat content).displaying content id
  edit m content := (t.edit m content).displaying content fun _ => m

/-- Any transport can be watched for what messages show. -/
theorem shows_displayed (t : Transport σ) : t.displayed.Shows Prod.snd where
  send _ _ _ _ _ h := Act.displaying_ok h
  sendFails _ _ _ _ _ h := Act.displaying_error h
  edit _ _ _ _ h := Act.displaying_ok h
  editFails _ _ _ _ _ h := Act.displaying_error h

variable {t : Transport σ} {display : σ → Display} {world : σ} {m : MessageRef} {content : Content}

/-- Sending leaves alone what is shown already. -/
theorem Shows.display_send (hshows : t.Shows display) (hfresh : t.SendsFresh display world)
    (hm : display world m = some content) (chat : Int64) (reply : Content) :
    display ((t.send chat reply).effect world).2 m = some content := by
  rcases hsend : (t.send chat reply).effect world with ⟨e | sent, after⟩
  · rw [hshows.sendFails chat reply world e after hsend]
    exact hm
  · have hne : m ≠ sent := by
      rintro rfl
      rw [hfresh chat reply m after hsend] at hm
      cases hm
    rw [hshows.send chat reply world sent after hsend, Display.set_of_ne _ _ hne]
    exact hm

end Transport

/-! ## Numbers of messages -/

/-- The messages that show something have numbers below a bound. -/
def Display.Below (shown : Display) (bound : Int) : Prop :=
  ∀ m, shown m ≠ none → m.message.toInt < bound

theorem Display.Below.set {shown : Display} {bound bound' : Int} (h : shown.Below bound)
    (hle : bound ≤ bound') {m : MessageRef} (hm : m.message.toInt < bound') (content : Content) :
    (shown.set m content).Below bound' := by
  intro other hother
  by_cases heq : other = m
  · exact heq ▸ hm
  · rw [Display.set_of_ne _ _ heq] at hother
    exact Int.lt_of_lt_of_le (h other hother) hle

/-- A transport that numbers its messages from a bound on sends fresh ones, as long as those that
show something are below the bound. -/
theorem Transport.sendsFresh_displayed {σ : Type} {t : Transport σ} {noted : σ × Display}
    {bound : Int} (hbelow : noted.2.Below bound)
    (hfrom : ∀ chat content m left, (t.send chat content).effect noted.1 = (.ok m, left) →
      bound ≤ m.message.toInt) : t.displayed.SendsFresh Prod.snd noted := by
  intro chat content m left hsend
  obtain ⟨hsent, -⟩ := Prod.mk.inj ((Act.effect_displaying _ _ _ _).symm.trans hsend)
  by_cases hnone : noted.2 m = none
  · exact hnone
  · have hlt := hbelow m hnone
    have hle := hfrom chat content m _ (Prod.ext hsent rfl)
    omega

/-- The next number, as long as there is one. -/
theorem toInt_add_one {n : Int64} (h : n ≠ Int64.maxValue) : (n + 1).toInt = n.toInt + 1 := by
  have hmax : n.toInt ≠ Int64.maxValue.toInt := fun heq => h (Int64.toInt_inj.1 heq)
  have hone : (1 : Int64).toInt = 1 := by decide
  have hlt := Int64.toInt_lt n
  have hle := Int64.le_toInt n
  rw [Int64.toInt_maxValue] at hmax
  rw [Int64.toInt_add, hone, Int.bmod_eq_of_le] <;> omega

namespace Console

variable {chat : Int64} {content : Content} {m : MessageRef}

theorem send_eq_ok {c left : Console}
    (h : (transport.send chat content).effect c = (.ok m, left)) :
    m = ⟨chat, c.next⟩ ∧ left.next = c.next + 1 := by
  obtain ⟨lines, next, failure⟩ := c
  cases failure with
  | none =>
    cases h
    exact ⟨rfl, rfl⟩
  | some reason => cases h

/-- The console sends fresh messages if those that are shown have lower numbers than the next. -/
theorem sendsFresh {noted : Console × Display} (h : noted.2.Below noted.1.next.toInt) :
    transport.displayed.SendsFresh Prod.snd noted := by
  refine Transport.sendsFresh_displayed h fun chat content m left hsend => ?_
  obtain ⟨rfl, -⟩ := send_eq_ok hsend
  exact Int.le_refl _

/-- They still have when one more is sent, as long as there are numbers. -/
theorem below_send {noted left : Console × Display} (h : noted.2.Below noted.1.next.toInt)
    (hroom : noted.1.next ≠ Int64.maxValue)
    (hsend : (transport.displayed.send chat content).effect noted = (.ok m, left)) :
    left.2.Below left.1.next.toInt := by
  obtain ⟨hsent, rfl⟩ := Prod.mk.inj ((Act.effect_displaying _ _ _ _).symm.trans hsend)
  obtain ⟨rfl, hnext⟩ := send_eq_ok (Prod.ext hsent rfl)
  have hbound := toInt_add_one hroom
  rw [hsent]
  simp only [hnext, hbound]
  exact h.set (by omega) (by simp only [id]; omega) content

end Console

namespace Recorder

variable {chat : Int64} {content : Content} {m : MessageRef}

theorem send_eq_ok {r left : Recorder}
    (h : (transport.send chat content).effect r = (.ok m, left)) :
    m = ⟨chat, r.accepted + 1⟩ ∧ left.accepted = r.accepted + 1 := by
  obtain ⟨calls, accepted, failure⟩ := r
  cases failure with
  | none =>
    cases h
    exact ⟨rfl, rfl⟩
  | some reason => cases h

/-- The recorder sends fresh messages if those that are shown have lower numbers than the next. -/
theorem sendsFresh {noted : Recorder × Display} (h : noted.2.Below (noted.1.accepted.toInt + 1))
    (hroom : noted.1.accepted ≠ Int64.maxValue) :
    transport.displayed.SendsFresh Prod.snd noted := by
  refine Transport.sendsFresh_displayed h fun chat content m left hsend => ?_
  obtain ⟨rfl, -⟩ := send_eq_ok hsend
  exact Int.le_of_eq (toInt_add_one hroom).symm

/-- They still have when one more is sent, as long as there are numbers. -/
theorem below_send {noted left : Recorder × Display}
    (h : noted.2.Below (noted.1.accepted.toInt + 1)) (hroom : noted.1.accepted ≠ Int64.maxValue)
    (hsend : (transport.displayed.send chat content).effect noted = (.ok m, left)) :
    left.2.Below (left.1.accepted.toInt + 1) := by
  obtain ⟨hsent, rfl⟩ := Prod.mk.inj ((Act.effect_displaying _ _ _ _).symm.trans hsend)
  obtain ⟨rfl, hnext⟩ := send_eq_ok (Prod.ext hsent rfl)
  have hbound := toInt_add_one hroom
  rw [hsent]
  simp only [hnext, hbound]
  exact h.set (by omega) (by simp only [id]; omega) content

end Recorder

/-! ## Handlers from the settings -/

section Rows

variable {σ : Type} {t : Transport σ} {display : σ → Display} {world : σ} {m : MessageRef}
  {content : Content}

/-- The handler of a row leaves alone what is shown already. -/
theorem RowAction.display_handler (a : RowAction) (hshows : t.Shows display)
    (hfresh : t.SendsFresh display world) (hm : display world m = some content) (u : Update)
    (click : Click) :
    display (((a.handler : Handler σ) t u click).effect world).2 m = some content := by
  have hsend := hshows.display_send hfresh hm u.chat (.plain a.text)
  unfold RowAction.handler
  cases a.action with
  | log => exact hm
  | reply =>
    simp only [Act.effect_bind]
    rcases hsent : (t.send u.chat (.plain a.text)).effect world with ⟨e | sent, after⟩
    · rwa [hsent] at hsend
    · rwa [hsent] at hsend

namespace Router

/-- All handlers of the router are those of rows. -/
def FromRows (r : Router σ) : Prop :=
  ∀ key handler, r.handlers.get? key = some handler → ∃ a : RowAction, handler = a.handler

variable {r : Router σ}

theorem fromRows_new (transport : Transport σ) (graph : Graph) : (new transport graph).FromRows :=
  fun _ _ h => nomatch h

/-- A row that is registered adds its handler and changes nothing else. -/
theorem registerRow_cases {row : HandlerRow} {registered : Router σ} {record : LogRecord}
    (h : r.registerRow row = .ok (registered, record)) :
    ∃ (key : String) (a : RowAction),
      registered = { r with handlers := r.handlers.insert key a.handler } := by
  obtain ⟨a, -, hregister⟩ := Checks.bind_eq_ok_iff.1 h
  cases hfound : r.graph.choiceOfKey? (Key.choice row.procedure row.stage row.choice) with
  | none =>
    simp only [register, hfound] at hregister
    cases hregister
  | some c =>
    simp only [register, hfound] at hregister
    cases hregister
    exact ⟨_, a, rfl⟩

theorem FromRows.registerRows (h : r.FromRows) (rows : List HandlerRow) :
    (r.registerRows rows).1.FromRows ∧ (r.registerRows rows).1.transport = r.transport ∧
      (r.registerRows rows).1.graph = r.graph := by
  induction rows generalizing r with
  | nil => exact ⟨h, rfl, rfl⟩
  | cons row rows ih =>
    unfold Router.registerRows
    cases hrow : r.registerRow row with
    | error e => exact ⟨h, rfl, rfl⟩
    | ok registered =>
      obtain ⟨registered, record⟩ := registered
      obtain ⟨key, a, rfl⟩ := registerRow_cases hrow
      refine ih (r := { r with handlers := r.handlers.insert key a.handler }) ?_
      intro other handler hget
      rw [NameTable.get?_insert] at hget
      split at hget
      · cases hget
        exact ⟨a, rfl⟩
      · exact h other handler hget

/-- The router with the handlers of a table, as far as they can be registered. -/
def ofRows (transport : Transport σ) (g : Graph) (rows : List HandlerRow) : Router σ :=
  ((new transport g).registerRows rows).1

theorem fromRows_ofRows (transport : Transport σ) (g : Graph) (rows : List HandlerRow) :
    (ofRows transport g rows).FromRows := ((fromRows_new transport g).registerRows rows).1

@[simp] theorem transport_ofRows (transport : Transport σ) (g : Graph) (rows : List HandlerRow) :
    (ofRows transport g rows).transport = transport :=
  ((fromRows_new transport g).registerRows rows).2.1

@[simp] theorem graph_ofRows (transport : Transport σ) (g : Graph) (rows : List HandlerRow) :
    (ofRows transport g rows).graph = g := ((fromRows_new transport g).registerRows rows).2.2

/-- What a click's handler leaves shows what was shown before. -/
theorem FromRows.display_handled (h : r.FromRows) (hshows : r.transport.Shows display)
    (hfresh : r.transport.SendsFresh display world) (hm : display world m = some content)
    (u : Update) (click : Click) : display (r.handled u click world).2 m = some content := by
  unfold handled
  split
  · exact hm
  · rename_i handler hget
    obtain ⟨a, rfl⟩ := h _ handler hget
    exact a.display_handler hshows hfresh hm u click

end Router

end Rows

end ButtonDialog
