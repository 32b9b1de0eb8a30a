import Mathlib.Data.List.Forall2

/-! Checks that stop at the first fault.

    A check of a list accepts when it accepts every element, and refuses with the fault of one of
    them. Building a list element by element accepts when every element can be built. A check that
    detects faults fails with one that is there, and succeeds only if there is none. -/

namespace ButtonDialog.Checks

variable {ε α β γ : Type}

theorem ok_bind (a : α) (f : α → Except ε β) : (.ok a >>= f) = f a := rfl

theorem bind_eq_ok_iff {x : Except ε α} {f : α → Except ε β} {b : β} :
    x >>= f = .ok b ↔ ∃ a, x = .ok a ∧ f a = .ok b := by
  cases x <;> simp [bind, Except.bind]

theorem bind_eq_error_iff {x : Except ε α} {f : α → Except ε β} {e : ε} :
    x >>= f = .error e ↔ x = .error e ∨ ∃ a, x = .ok a ∧ f a = .error e := by
  cases x <;> simp [bind, Except.bind]

/-- A check in two parts accepts when both accept. -/
theorem andThen_eq_ok_iff {x : Except ε Unit} {y : Except ε Unit} :
    (do x; y) = .ok () ↔ x = .ok () ∧ y = .ok () := by
  rw [bind_eq_ok_iff]
  exact ⟨fun ⟨_, hx, hy⟩ => ⟨hx, hy⟩, fun ⟨hx, hy⟩ => ⟨(), hx, hy⟩⟩

theorem toOption_eq_some_iff {x : Except ε α} {a : α} : x.toOption = some a ↔ x = .ok a := by
  cases x <;> simp [Except.toOption]

/-- A list is accepted when every element is. -/
theorem forM_eq_ok_iff {f : α → Except ε Unit} {as : List α} :
    as.forM f = .ok () ↔ ∀ a ∈ as, f a = .ok () := by
  induction as with
  | nil => simp [List.forM, pure, Except.pure]
  | cons a as ih =>
    change (do f a; as.forM f) = .ok () ↔ _
    rw [andThen_eq_ok_iff, ih, List.forall_mem_cons]

/-- A list is refused with the fault of one of its elements. -/
theorem exists_of_forM_eq_error {f : α → Except ε Unit} {as : List α} {e : ε}
    (h : as.forM f = .error e) : ∃ a ∈ as, f a = .error e := by
  induction as with
  | nil => simp [List.forM, pure, Except.pure] at h
  | cons a as ih =>
    change (do f a; as.forM f) = .error e at h
    rcases bind_eq_error_iff.1 h with h | ⟨_, _, h⟩
    · exact ⟨a, List.mem_cons_self, h⟩
    · obtain ⟨b, hb, hf⟩ := ih h
      exact ⟨b, List.mem_cons_of_mem _ hb, hf⟩

/-- A list is built when its elements are, one by one. Seen from the other side, what is built
from `as` leads back to `as`. -/
theorem mapM_eq_ok_iff {f : α → Except ε β} {back : β → α} {Good : α → Prop}
    (hf : ∀ a b, f a = .ok b ↔ Good a ∧ back b = a) {as : List α} {bs : List β} :
    as.mapM f = .ok bs ↔ (∀ a ∈ as, Good a) ∧ bs.map back = as := by
  induction as generalizing bs with
  | nil =>
    cases bs <;> simp [List.mapM_nil, pure, Except.pure]
  | cons a as ih =>
    simp only [List.mapM_cons, bind_eq_ok_iff, hf, ih, pure, Except.pure, Except.ok.injEq]
    constructor
    · rintro ⟨b, ⟨hgood, hback⟩, bs', ⟨hall, hmap⟩, rfl⟩
      exact ⟨List.forall_mem_cons.2 ⟨hgood, hall⟩, by rw [List.map_cons, hback, hmap]⟩
    · rintro ⟨hall, hmap⟩
      obtain ⟨hgood, hall⟩ := List.forall_mem_cons.1 hall
      cases bs with
      | nil => simp at hmap
      | cons b bs' =>
        rw [List.map_cons, List.cons.injEq] at hmap
        exact ⟨b, ⟨hgood, hmap.1⟩, bs', ⟨hall, hmap.2⟩, rfl⟩

/-- What is found for a list is found for its elements, one by one. -/
theorem mapM_eq_some_iff {f : α → Option β} {as : List α} {bs : List β} :
    as.mapM f = some bs ↔ List.Forall₂ (fun a b => f a = some b) as bs := by
  induction as generalizing bs with
  | nil => simp [eq_comm]
  | cons a as ih =>
    simp only [List.mapM_cons, Option.bind_eq_bind, Option.bind_eq_some_iff, Option.pure_def, ih,
      Option.some.injEq, List.forall₂_cons_left_iff]
    constructor
    · rintro ⟨b, hb, bs, hbs, rfl⟩
      exact ⟨b, bs, hb, hbs, rfl⟩
    · rintro ⟨b, bs, hb, hbs, rfl⟩
      exact ⟨b, hb, bs, hbs, rfl⟩

/-- Building a list fails with the fault of one of its elements. -/
theorem exists_of_mapM_eq_error {f : α → Except ε β} {as : List α} {e : ε}
    (h : as.mapM f = .error e) : ∃ a ∈ as, f a = .error e := by
  induction as with
  | nil => simp [List.mapM_nil, pure, Except.pure] at h
  | cons a as ih =>
    rw [List.mapM_cons] at h
    rcases bind_eq_error_iff.1 h with h | ⟨b, _, h⟩
    · exact ⟨a, List.mem_cons_self, h⟩
    · rcases bind_eq_error_iff.1 h with h | ⟨_, _, h⟩
      · obtain ⟨c, hc, hf⟩ := ih h
        exact ⟨c, List.mem_cons_of_mem _ hc, hf⟩
      · simp [pure, Except.pure] at h

/-- A fold that fails has gone well up to the element that it fails at. -/
theorem exists_of_foldlM_eq_error {f : β → α → Except ε β} {as : List α} {b : β} {e : ε}
    (h : as.foldlM f b = .error e) :
    ∃ before a after b', as = before ++ a :: after ∧ before.foldlM f b = .ok b' ∧
      f b' a = .error e := by
  induction as generalizing b with
  | nil => simp [pure, Except.pure] at h
  | cons a as ih =>
    rw [List.foldlM_cons] at h
    rcases bind_eq_error_iff.1 h with h | ⟨b', hb', h⟩
    · exact ⟨[], a, as, b, rfl, rfl, h⟩
    · obtain ⟨before, a', after, b'', rfl, hbefore, h⟩ := ih h
      refine ⟨a :: before, a', after, b'', rfl, ?_, h⟩
      rw [List.foldlM_cons]
      exact bind_eq_ok_iff.2 ⟨b', hb', hbefore⟩

/-! ## What checks detect -/

/-- A check detects faults: what it fails with is a fault, and it succeeds only if there is none. -/
structure Detects (x : Except ε α) (Fault : ε → Prop) : Prop where
  fault : ∀ e, x = .error e → Fault e
  faultless : ∀ a, x = .ok a → ∀ e, ¬ Fault e

namespace Detects

theorem of_ok (a : α) {Fault : ε → Prop} (h : ∀ e, ¬ Fault e) :
    Detects (.ok a : Except ε α) Fault :=
  ⟨nofun, fun _ _ => h⟩

theorem of_error {e : ε} {Fault : ε → Prop} (h : Fault e) :
    Detects (.error e : Except ε α) Fault :=
  ⟨fun _ h' => Except.error.inj h' ▸ h, nofun⟩

variable {x : Except ε α} {Fault : ε → Prop}

theorem congr {Same : ε → Prop} (h : Detects x Fault) (hiff : ∀ e, Fault e ↔ Same e) :
    Detects x Same :=
  ⟨fun e hx => (hiff e).1 (h.fault e hx), fun a hx e => mt (hiff e).2 (h.faultless a hx e)⟩

/-- Two checks, the second after the first, detect the faults of both. -/
theorem bind {f : α → Except ε β} {Later : ε → Prop} (hx : Detects x Fault)
    (hf : ∀ a, Detects (f a) Later) :
    Detects (x >>= f) fun e => Fault e ∨ Later e := by
  constructor
  · intro e h
    rcases bind_eq_error_iff.1 h with h | ⟨a, -, h⟩
    · exact .inl (hx.fault e h)
    · exact .inr ((hf a).fault e h)
  · intro b h e
    obtain ⟨a, ha, h⟩ := bind_eq_ok_iff.1 h
    rintro (hfault | hfault)
    · exact hx.faultless a ha e hfault
    · exact (hf a).faultless b h e hfault

/-- What is made of the result does not matter. -/
theorem bind_pure (hx : Detects x Fault) (f : α → β) :
    Detects (x >>= fun a => pure (f a)) Fault := by
  have hpure : ∀ a, Detects (.ok (f a) : Except ε β) fun _ => False :=
    fun a => of_ok (f a) fun _ => id
  exact (hx.bind hpure).congr fun _ => or_iff_left id

theorem succeeds_iff (h : Detects x Fault) : (∃ a, x = .ok a) ↔ ∀ e, ¬ Fault e := by
  refine ⟨fun ⟨a, ha⟩ => h.faultless a ha, fun hnone => ?_⟩
  cases hx : x with
  | ok a => exact ⟨a, rfl⟩
  | error e => exact absurd (h.fault e hx) (hnone e)

end Detects

end ButtonDialog.Checks
