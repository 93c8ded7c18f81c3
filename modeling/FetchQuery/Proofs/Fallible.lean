import Mathlib.Data.List.Forall2

namespace FetchQuery.Fallible

variable {ε α β γ : Type}

theorem bind_eq_ok {x : Except ε α} {f : α → Except ε β} {b : β} :
    (x >>= f) = .ok b ↔ ∃ a, x = .ok a ∧ f a = .ok b := by
  cases x <;> simp [bind, Except.bind]

theorem map_eq_ok {x : Except ε α} {f : α → β} {b : β} :
    x.map f = .ok b ↔ ∃ a, x = .ok a ∧ f a = b := by
  cases x <;> simp [Except.map]

theorem map_eq_error {x : Except ε α} {f : α → β} {e : ε} : x.map f = .error e ↔ x = .error e := by
  cases x <;> simp [Except.map]

theorem pure_eq_ok {a b : α} : (pure a : Except ε α) = .ok b ↔ a = b := by
  simp [pure, Except.pure]

theorem mapM_eq_ok {f : α → Except ε β} {xs : List α} {ys : List β} :
    xs.mapM f = .ok ys ↔ List.Forall₂ (fun x y => f x = .ok y) xs ys := by
  induction xs generalizing ys with
  | nil => rw [List.mapM_nil, pure_eq_ok, List.forall₂_nil_left_iff, eq_comm]
  | cons x xs ih =>
    rw [List.mapM_cons, bind_eq_ok, List.forall₂_cons_left_iff]
    constructor
    · rintro ⟨y, hy, hr⟩
      obtain ⟨zs, hz, he⟩ := bind_eq_ok.1 hr
      exact ⟨y, zs, hy, ih.1 hz, (pure_eq_ok.1 he).symm⟩
    · rintro ⟨y, zs, hy, hz, rfl⟩
      exact ⟨y, hy, bind_eq_ok.2 ⟨zs, ih.2 hz, rfl⟩⟩

theorem exists_of_forall₂ {R : α → β → Prop} {as : List α} {bs : List β}
    (h : List.Forall₂ R as bs) : (∀ a ∈ as, ∃ b ∈ bs, R a b) ∧ ∀ b ∈ bs, ∃ a ∈ as, R a b := by
  induction h with
  | nil => exact ⟨nofun, nofun⟩
  | cons hr _ ih =>
    simp only [List.mem_cons, forall_eq_or_imp, exists_eq_or_imp]
    exact ⟨⟨.inl hr, fun a ha => .inr (ih.1 a ha)⟩, .inl hr, fun b hb => .inr (ih.2 b hb)⟩

theorem exists_of_mem_mapM {f : α → Except ε β} {xs : List α} {ys : List β} (h : xs.mapM f = .ok ys)
    {y : β} (hy : y ∈ ys) : ∃ x ∈ xs, f x = .ok y :=
  (exists_of_forall₂ (mapM_eq_ok.1 h)).2 y hy

theorem mapM_map_eq_ok {f : α → Except ε β} {xs : List α} {ys : List β} (h : xs.mapM f = .ok ys)
    (g : β → γ) : (xs.mapM fun x => (f x).map g) = .ok (ys.map g) := by
  rw [mapM_eq_ok, List.forall₂_map_right_iff]
  exact (mapM_eq_ok.1 h).imp fun x y hxy => map_eq_ok.2 ⟨y, hxy, rfl⟩

theorem eq_map_of_mapM {f : α → Except ε β} {g : α → β} (hg : ∀ x y, f x = .ok y → y = g x)
    {xs : List α} {ys : List β} (h : xs.mapM f = .ok ys) : ys = xs.map g := by
  have hr := mapM_eq_ok.1 h
  clear h
  induction hr with
  | nil => rfl
  | cons hy _ ih => rw [hg _ _ hy, ih, List.map_cons]

theorem map_map {x : Except ε α} {f : α → β} {g : β → γ} : (x.map f).map g = x.map (g ∘ f) := by
  cases x <;> rfl

theorem map_bind {x : Except ε α} {f : α → Except ε β} {g : β → γ} :
    (x >>= f).map g = x >>= fun a => (f a).map g := by
  cases x <;> rfl

theorem map_bind_congr_right {δ : Type} {x : Except ε α} {f : α → Except ε β} {g : α → Except ε γ}
    {p : β → δ} {q : γ → δ} (h : ∀ a, (f a).map p = (g a).map q) : (x >>= f).map p = (x >>= g).map q := by
  rw [map_bind, map_bind]
  exact bind_congr h

theorem map_bind_congr {δ : Type} {x : Except ε α} {f : α → β} {g : α → γ} {p : β → δ} {q : γ → δ}
    (h : ∀ a, p (f a) = q (g a)) :
    (x >>= fun a => pure (f a)).map p = (x >>= fun a => pure (g a)).map q :=
  map_bind_congr_right fun a => congrArg Except.ok (h a)

theorem map_bind_pure {x : Except ε α} {f : α → β} {g : β → γ} :
    (x >>= fun a => pure (f a)).map g = x.map fun a => g (f a) := by
  cases x <;> rfl

theorem eq_error_iff_of_map {x : Except ε α} {y : Except ε β} {f : α → γ} {g : β → γ} (h : x.map f = y.map g)
    {e : ε} : x = .error e ↔ y = .error e := by
  rw [← map_eq_error (f := f), h, map_eq_error]

/-- Two runs that agree as far as `g` can tell go on to agree if what follows sees no more than `g`. -/
theorem bind_congr_of_map {x y : Except ε α} {g : α → γ} (hx : x.map g = y.map g) {f f' : α → Except ε β}
    (hf : ∀ a b, x = .ok a → y = .ok b → g a = g b → f a = f' b) : (x >>= f) = (y >>= f') := by
  cases x with
  | error e =>
    cases y with
    | error e' => rw [Except.error.inj hx]; rfl
    | ok b => cases hx
  | ok a =>
    cases y with
    | error e' => cases hx
    | ok b => exact hf a b rfl rfl (Except.ok.inj hx)

theorem map_bind_congr_of_map {δ : Type} {x y : Except ε α} {g : α → γ} (hx : x.map g = y.map g)
    {f f' : α → Except ε β} {h : β → δ} (hf : ∀ a b, g a = g b → (f a).map h = (f' b).map h) :
    (x >>= f).map h = (y >>= f').map h := by
  rw [map_bind, map_bind]
  exact bind_congr_of_map hx fun a b _ _ hab => hf a b hab

theorem map_mapM_congr {f f' : α → Except ε β} {g : β → γ} {as : List α}
    (h : ∀ a ∈ as, (f a).map g = (f' a).map g) :
    (as.mapM f).map (List.map g) = (as.mapM f').map (List.map g) := by
  induction as with
  | nil => rfl
  | cons a as ih =>
    rw [List.forall_mem_cons] at h
    rw [List.mapM_cons, List.mapM_cons]
    refine map_bind_congr_of_map h.1 fun b b' hb => ?_
    refine map_bind_congr_of_map (ih h.2) fun bs bs' hbs => ?_
    exact congrArg Except.ok (congrArg₂ List.cons hb hbs)

/-- The computation fails with the first of the faults. When there is none it succeeds, with a result for
which `P` holds. -/
def Yields (x : Except ε α) (faults : List ε) (P : α → Prop) : Prop :=
  match x with
  | .ok a => faults = [] ∧ P a
  | .error e => faults.head? = some e

namespace Yields

variable {x : Except ε α} {faults faults' : List ε} {P : α → Prop}

theorem eq_error_iff (h : Yields x faults P) (e : ε) : x = .error e ↔ faults.head? = some e := by
  cases x with
  | error e' => rw [show faults.head? = some e' from h, Except.error.injEq, Option.some.injEq]
  | ok a => simp [h.1]

theorem exists_ok_iff (h : Yields x faults P) : (∃ a, x = .ok a) ↔ faults = [] := by
  cases x with
  | error e =>
    have he : faults.head? = some e := h
    constructor
    · rintro ⟨a, ha⟩
      cases ha
    · rintro rfl
      cases he
  | ok a => exact ⟨fun _ => h.1, fun _ => ⟨a, rfl⟩⟩

theorem of_eq_ok (h : Yields x faults P) {a : α} (ha : x = .ok a) : P a := by
  subst ha
  exact h.2

/-- The faults of the first step come before those of the second, which may rest on what the first one
has found. -/
theorem bind {f : α → Except ε β} {R : β → Prop} (h : Yields x faults P)
    (hf : ∀ a, P a → Yields (f a) faults' R) : Yields (x >>= f) (faults ++ faults') R := by
  cases x with
  | error e =>
    have he : faults.head? = some e := h
    show (faults ++ faults').head? = some e
    rw [List.head?_append, he, Option.some_or]
  | ok a =>
    rw [h.1]
    exact hf a h.2

theorem map {f : α → β} {R : β → Prop} (h : Yields x faults P) (hf : ∀ a, P a → R (f a)) :
    Yields (x.map f) faults R := by
  cases x with
  | error e => exact h
  | ok a => exact ⟨h.1, hf a h.2⟩

theorem bind_pure {f : α → β} {R : β → Prop} (h : Yields x faults P) (hf : ∀ a, P a → R (f a)) :
    Yields (x >>= fun a => pure (f a)) faults R := by
  cases x with
  | error e => exact h
  | ok a => exact ⟨h.1, hf a h.2⟩

theorem mapM {f : α → Except ε β} {g : α → List ε} {R : β → Prop} {as : List α}
    (h : ∀ a ∈ as, Yields (f a) (g a) R) :
    Yields (as.mapM f) (as.flatMap g) fun bs => ∀ b ∈ bs, R b := by
  induction as with
  | nil => exact ⟨rfl, nofun⟩
  | cons a as ih =>
    rw [List.forall_mem_cons] at h
    rw [List.mapM_cons, List.flatMap_cons]
    refine h.1.bind fun b hb => ?_
    exact (ih h.2).bind_pure fun bs hbs => List.forall_mem_cons.2 ⟨hb, hbs⟩

end Yields

end FetchQuery.Fallible
