import FetchQuery.Proofs.QuotedName

namespace FetchQuery.Sql

open Reading (isCalm isSettled)

def Continues (openings : List String) (rest : List Char) : Prop :=
  rest = [] ∨ ∃ opening ∈ openings, opening.toList <+: rest

/-- Of what is `valid`, the `view` can be read off the text, before a rest that is in `ends`. -/
def Readable {α β : Type} (write : α → List Char) (view : α → β) (valid : α → Prop)
    (ends : List Char → Prop) : Prop :=
  ∀ ⦃a b : α⦄ ⦃r s : List Char⦄, valid a → valid b → ends r → ends s → write a ++ r = write b ++ s →
    view a = view b ∧ r = s

/-- No opening starts with the keyword, nor the keyword with an opening. -/
def isApart (keyword : String) (openings : List String) : Bool :=
  !keyword.toList.isEmpty && openings.all fun opening =>
    !keyword.toList.isPrefixOf opening.toList && !opening.toList.isPrefixOf keyword.toList

namespace Continues

variable {openings : List String} {rest : List Char}

theorem nil : Continues openings [] := .inl rfl

theorem of_mem {opening : String} (h : opening ∈ openings) (rest : List Char) :
    Continues openings (opening.toList ++ rest) :=
  .inr ⟨opening, h, List.prefix_append _ _⟩

theorem mono {more : List String} (hm : openings ⊆ more) (h : Continues openings rest) :
    Continues more rest := by
  rcases h with rfl | ⟨opening, ho, hp⟩
  · exact nil
  · exact .inr ⟨opening, hm ho, hp⟩

theorem optional {opening : String} {p : Bool} (text : List Char) (h : Continues openings rest) :
    Continues (opening :: openings) ((if p then opening.toList ++ text else []) ++ rest) := by
  cases p with
  | false => exact h.mono (List.subset_cons_self opening openings)
  | true =>
    rw [if_pos rfl, List.append_assoc]
    exact of_mem List.mem_cons_self _

theorem head {stop : Char → Bool} (hs : openings.all (·.toList.head?.any stop) = true) {c : Char}
    (h : Continues openings (c :: rest)) : stop c = true := by
  rcases h with h | ⟨opening, ho, hp⟩
  · cases h
  · have hany := List.all_eq_true.1 hs opening ho
    cases hl : opening.toList with
    | nil =>
      rw [hl] at hany
      cases hany
    | cons x xs =>
      rw [hl] at hany hp
      obtain ⟨rfl, _⟩ := List.cons_prefix_cons.1 hp
      simpa using hany

theorem not_prefix {keyword : String} (ha : isApart keyword openings = true)
    (h : Continues openings rest) : ¬ keyword.toList <+: rest := by
  simp only [isApart, Bool.and_eq_true, Bool.not_eq_true', List.isEmpty_eq_false_iff,
    List.all_eq_true] at ha
  obtain ⟨hn, ha⟩ := ha
  intro hk
  rcases h with rfl | ⟨opening, ho, hp⟩
  · exact hn (List.prefix_nil.1 hk)
  · obtain ⟨hl, hr⟩ := ha opening ho
    rcases List.prefix_or_prefix_of_prefix hk hp with h | h
    · rw [List.isPrefixOf_iff_prefix.2 h] at hl
      cases hl
    · rw [List.isPrefixOf_iff_prefix.2 h] at hr
      cases hr

end Continues

namespace Readable

variable {α β γ : Type} {write : α → List Char} {view : α → β} {valid : α → Prop}
  {ends : List Char → Prop} {openings : List String}

/-- A text that goes on where another one ends goes on with a character that cannot follow there. -/
theorem of_stop (stop : Char → Bool) (hs : openings.all (·.toList.head?.any stop) = true)
    (h : ∀ a b c t, valid a → valid b → write b = write a ++ c :: t → stop c = false) :
    Readable write write valid (Continues openings) := by
  have hnil : ∀ a b t s, valid a → valid b → write b = write a ++ t →
      Continues openings (t ++ s) → t = [] := by
    intro a b t s ha hb hw hc
    cases t with
    | nil => rfl
    | cons c t =>
      have hstop := hc.head hs
      rw [h a b c t ha hb hw] at hstop
      cases hstop
  intro a b r s ha hb hr hs he
  rcases List.append_eq_append_iff.1 he with ⟨t, hw, rfl⟩ | ⟨t, hw, rfl⟩
  · obtain rfl := hnil a b t s ha hb hw hr
    simpa using hw.symm
  · obtain rfl := hnil b a t r hb ha hw hs
    simpa using hw

theorem see (h : Readable write view valid ends) {view' : α → γ}
    (hv : ∀ a b, valid a → valid b → view a = view b → view' a = view' b) :
    Readable write view' valid ends := by
  intro a b r s ha hb hr hs he
  obtain ⟨hab, hrs⟩ := h ha hb hr hs he
  exact ⟨hv a b ha hb hab, hrs⟩

theorem comap (h : Readable write view valid ends) (part : γ → α) {valid' : γ → Prop}
    (hv : ∀ c, valid' c → valid (part c)) :
    Readable (fun c => write (part c)) (fun c => view (part c)) valid' ends :=
  fun a b _ _ ha hb hr hs he => h (hv a ha) (hv b hb) hr hs he

theorem text (h : Readable write view valid ends) : Readable write write valid ends := by
  intro a b r s ha hb hr hs he
  obtain ⟨_, rfl⟩ := h ha hb hr hs he
  exact ⟨List.append_cancel_right he, rfl⟩

theorem after (text : List Char) (h : Readable write view valid ends) :
    Readable (fun a => text ++ write a) view valid ends := by
  intro a b r s ha hb hr hs he
  rw [List.append_assoc, List.append_assoc] at he
  exact h ha hb hr hs (List.append_cancel_left he)

theorem append {write' : α → List Char} {view' : α → γ} {ends' : List Char → Prop}
    (h : Readable write view valid ends) (h' : Readable write' view' valid ends')
    (he : ∀ a r, valid a → ends' r → ends (write' a ++ r)) :
    Readable (fun a => write a ++ write' a) (fun a => (view a, view' a)) valid ends' := by
  intro a b r s ha hb hr hs hab
  rw [List.append_assoc, List.append_assoc] at hab
  obtain ⟨hv, hrest⟩ := h ha hb (he a r ha hr) (he b s hb hs) hab
  obtain ⟨hv', hrs⟩ := h' ha hb hr hs hrest
  exact ⟨Prod.ext hv hv', hrs⟩

/-- Two texts with a fixed one between them, which shows where the first one ends. -/
theorem andThen {write' : α → List Char} {view' : α → γ} (between : String)
    (h : Readable write view valid (Continues [between])) (h' : Readable write' view' valid ends) :
    Readable (fun a => write a ++ (between.toList ++ write' a)) (fun a => (view a, view' a)) valid
      ends := by
  apply h.append (h'.after between.toList)
  intro a r _ _
  rw [List.append_assoc]
  exact .of_mem (List.mem_singleton_self between) _

theorem before (closing : String) (h : Readable write view valid (Continues [closing])) :
    Readable (fun a => write a ++ closing.toList) view valid ends := by
  intro a b r s ha hb _ _ he
  rw [List.append_assoc, List.append_assoc] at he
  have hc : ∀ rest, Continues [closing] (closing.toList ++ rest) :=
    .of_mem (List.mem_singleton_self closing)
  obtain ⟨hv, he⟩ := h ha hb (hc r) (hc s) he
  exact ⟨hv, List.append_cancel_left he⟩

/-- A clause that may be missing, which shows in its keyword. -/
theorem optional (p : α → Bool) (keyword : List Char)
    (h : Readable write view (fun a => valid a ∧ p a = true) ends)
    (hk : ∀ r, ends r → ¬ keyword <+: r) :
    Readable (fun a => if p a then keyword ++ write a else [])
      (fun a => if p a then some (view a) else none) valid ends := by
  intro a b r s ha hb hr hs he
  simp only at he ⊢
  split at he <;> split at he
  next hpa hpb =>
    obtain ⟨hv, hrs⟩ := h.after keyword ⟨ha, hpa⟩ ⟨hb, hpb⟩ hr hs he
    exact ⟨by rw [if_pos hpa, if_pos hpb, hv], hrs⟩
  next hpa hpb =>
    rw [List.append_assoc, List.nil_append] at he
    exact absurd (he ▸ List.prefix_append _ _) (hk s hs)
  next hpa hpb =>
    rw [List.append_assoc, List.nil_append] at he
    exact absurd (he ▸ List.prefix_append _ _) (hk r hr)
  next hpa hpb => exact ⟨by rw [if_neg hpa, if_neg hpb], he⟩

section

variable {starts : List String}

theorem continues_flatMap (hw : ∀ a, valid a → ∃ start ∈ starts, start.toList <+: write a)
    {r : List Char} (hr : Continues openings r) {as : List α} (ha : ∀ a ∈ as, valid a) :
    Continues (starts ++ openings) (as.flatMap write ++ r) := by
  cases as with
  | nil => exact hr.mono (List.subset_append_right starts openings)
  | cons a as =>
    obtain ⟨start, hm, hp⟩ := hw a (ha a List.mem_cons_self)
    rw [List.flatMap_cons, List.append_assoc]
    exact .inr ⟨start, List.mem_append_left openings hm, hp.trans (List.prefix_append _ _)⟩

/-- Any number of texts, each of which shows by its start that there is one more. -/
theorem many (starts : List String) (hw : ∀ a, valid a → ∃ start ∈ starts, start.toList <+: write a)
    (ha : starts.all (isApart · openings) = true)
    (h : Readable write view valid (Continues (starts ++ openings))) :
    Readable (List.flatMap write) (List.map view) (fun as => ∀ a ∈ as, valid a)
      (Continues openings) := by
  -- no rest starts like one more text, so both lists end at the same place
  have hmore : ∀ a as r s, valid a → Continues openings r → r ≠ (a :: as).flatMap write ++ s := by
    rintro a as _ s hv hr rfl
    obtain ⟨start, hm, hp⟩ := hw a hv
    rw [List.flatMap_cons, List.append_assoc] at hr
    exact hr.not_prefix (List.all_eq_true.1 ha start hm) (hp.trans (List.prefix_append _ _))
  intro as bs r s hva hvb hr hs he
  induction as generalizing bs with
  | nil =>
    cases bs with
    | nil => exact ⟨rfl, he⟩
    | cons b bs => exact absurd he (hmore b bs r s (hvb b List.mem_cons_self) hr)
  | cons a as ih =>
    cases bs with
    | nil => exact absurd he.symm (hmore a as s r (hva a List.mem_cons_self) hs)
    | cons b bs =>
      rw [List.forall_mem_cons] at hva hvb
      rw [List.flatMap_cons, List.flatMap_cons, List.append_assoc, List.append_assoc] at he
      obtain ⟨hv, he⟩ :=
        h hva.1 hvb.1 (continues_flatMap hw hr hva.2) (continues_flatMap hw hs hvb.2) he
      obtain ⟨hvs, hrs⟩ := ih hva.2 hvb.2 he
      exact ⟨by rw [List.map_cons, List.map_cons, hv, hvs], hrs⟩

end

theorem intercalate_cons (glue x : List Char) (xs : List (List Char)) :
    glue.intercalate (x :: xs) = x ++ xs.flatMap (glue ++ ·) := by
  induction xs generalizing x with
  | nil => simp
  | cons y ys ih =>
    rw [List.intercalate_cons_cons, ih, List.flatMap_cons, List.append_assoc, List.append_assoc]

theorem intercalate (glue : String) (ha : isApart glue openings = true)
    (h : Readable write view valid (Continues (glue :: openings))) :
    Readable (fun as => glue.toList.intercalate (as.map write)) (List.map view)
      (fun as => as ≠ [] ∧ ∀ a ∈ as, valid a) (Continues openings) := by
  have hw : ∀ a, valid a → ∃ start ∈ [glue], start.toList <+: glue.toList ++ write a :=
    fun a _ => ⟨glue, List.mem_singleton_self glue, List.prefix_append _ _⟩
  have hmany := (h.after glue.toList).many [glue] hw (by simpa using ha)
  rintro (_ | ⟨a, as⟩) (_ | ⟨b, bs⟩) r s ⟨hna, hva⟩ ⟨hnb, hvb⟩ hr hs he
  · exact absurd rfl hna
  · exact absurd rfl hna
  · exact absurd rfl hnb
  · rw [List.forall_mem_cons] at hva hvb
    simp only [List.map_cons, intercalate_cons, List.flatMap_map, List.append_assoc] at he
    obtain ⟨hv, he⟩ := h hva.1 hvb.1 (continues_flatMap hw hr hva.2) (continues_flatMap hw hs hvb.2) he
    obtain ⟨hvs, hrs⟩ := hmany hva.2 hvb.2 hr hs he
    exact ⟨by rw [List.map_cons, List.map_cons, hv, hvs], hrs⟩

theorem clause (keyword glue : String) (hk : isApart keyword openings = true)
    (hg : isApart glue openings = true)
    (h : Readable write view valid (Continues (glue :: openings))) (items : γ → List α)
    {valid' : γ → Prop}
    (hv : ∀ c, valid' c → ∀ a ∈ items c, valid a) :
    Readable (fun c => if !(items c).isEmpty then
        keyword.toList ++ glue.toList.intercalate ((items c).map write) else [])
      (fun c => (items c).map view) valid' (Continues openings) := by
  have hitems : Readable (fun c => glue.toList.intercalate ((items c).map write))
      (fun c => (items c).map view) (fun c => valid' c ∧ (!(items c).isEmpty) = true) (Continues openings) :=
    (h.intercalate glue hg).comap items fun c hc => ⟨by simpa using hc.2, hv c hc.1⟩
  apply (hitems.optional _ keyword.toList fun r hr => hr.not_prefix hk).see
  intro c c' _ _ he
  cases hc : items c <;> cases hc' : items c' <;> simp_all

end Readable

section

variable {α : Type} {valid : α → Prop} {d : Dialect}

theorem word_readable {write : α → List Char} (openings : List String)
    (hs : openings.all (·.toList.head?.any isFill) = true)
    (hw : ∀ a, valid a → Carries d endsWord isCalm isSettled 0 0 (write a)) :
    Readable write write valid (Continues openings) := by
  apply Readable.of_stop isFill hs
  intro a b c t ha hb he
  obtain ⟨r, hr, hra⟩ := hw a ha (.outside ' ') rfl
  obtain ⟨r', _, hrb⟩ := hw b hb (.outside ' ') rfl
  rw [he, Scan.run_append, hra] at hrb
  obtain ⟨_, _, hstep, _⟩ := Scan.step_of_run hrb
  exact isFill_eq_false_of_step hr hstep

theorem identifier_readable {part : α → String} (openings : List String)
    (hs : openings.all (·.toList.head?.any (!isIdentifierChar ·)) = true)
    (hp : ∀ a, valid a → isIdentifier (part a) = true) :
    Readable (fun a => (part a).toList) part valid (Continues openings) := by
  have h : Readable (fun a => (part a).toList) (fun a => (part a).toList) valid
      (Continues openings) := by
    apply Readable.of_stop _ hs
    intro a b c t _ hb he
    have hall := hp b hb
    rw [isIdentifier, he, List.all_append, List.all_cons, Bool.and_eq_true, Bool.and_eq_true] at hall
    rw [hall.2.1]
    rfl
  exact h.see fun a b _ _ hab => String.toList_inj.1 hab

def isCloser (c : Char) : Bool := c == ']' || c == '"'

theorem Dialect.isCloser_close (d : Dialect) : isCloser d.close = true := by
  cases d <;> rfl

theorem quote_readable (part : α → String) (openings : List String)
    (hs : openings.all (·.toList.head?.any (!isCloser ·)) = true) :
    Readable (fun a => (d.quote (part a)).toList) part valid (Continues openings) := by
  have hread : ∀ a b t, t.head? ≠ some d.close → (d.quote b).toList = (d.quote a).toList ++ t →
      b = a ∧ t = [] := by
    intro a b t ht he
    have hquote : d.quote b ++ "" = d.quote a ++ String.ofList t := by
      rw [← String.toList_inj]
      simpa using he
    obtain ⟨hab, hempty⟩ := Dialect.quote_append_inj (by simp) (by simpa using ht) hquote
    exact ⟨hab, by simpa using hempty.symm⟩
  have h : Readable (fun a => (d.quote (part a)).toList) (fun a => (d.quote (part a)).toList) valid
      (Continues openings) := by
    apply Readable.of_stop _ hs
    intro a b c t _ _ he
    by_cases hcc : c = d.close
    · rw [hcc, d.isCloser_close]
      rfl
    · have hnil := (hread (part a) (part b) (c :: t) (by simpa using hcc) he).2
      cases hnil
  apply h.see
  intro a b _ _ hab
  exact (hread (part b) (part a) [] (by simp) (by simpa using hab)).1

theorem number_readable (part : α → Nat) (openings : List String)
    (hs : openings.all (·.toList.head?.any (!Char.isDigit ·)) = true) :
    Readable (fun a => (toString (part a)).toList) part valid (Continues openings) := by
  have h : Readable (fun a => (toString (part a)).toList) (fun a => (toString (part a)).toList) valid
      (Continues openings) := by
    apply Readable.of_stop _ hs
    intro a b c t _ _ he
    have hc : c ∈ Nat.toDigits 10 (part b) := by
      rw [← Nat.toList_repr]
      exact he ▸ List.mem_append_right _ List.mem_cons_self
    rw [Nat.isDigit_of_mem_toDigits (by decide) (by decide) hc]
    rfl
  apply h.see
  intro a b _ _ hab
  have hdigits : Nat.toDigits 10 (part a) = Nat.toDigits 10 (part b) := by
    rw [← Nat.toList_repr, ← Nat.toList_repr]
    exact hab
  calc
    part a = Nat.ofDigitChars 10 (Nat.toDigits 10 (part a)) 0 := Nat.ofDigitChars_ten_toDigits.symm
    _ = Nat.ofDigitChars 10 (Nat.toDigits 10 (part b)) 0 := by rw [hdigits]
    _ = part b := Nat.ofDigitChars_ten_toDigits

theorem keyword_readable {κ : Type} {keyword : κ → String}
    (hk : ∀ k l, (keyword k).toList <+: (keyword l).toList → k = l) (part : α → κ)
    {ends : List Char → Prop} :
    Readable (fun a => (keyword (part a)).toList) part valid ends := by
  intro a b r s _ _ _ _ he
  have hab : part a = part b := by
    have ha : (keyword (part a)).toList <+: (keyword (part b)).toList ++ s :=
      he ▸ List.prefix_append _ _
    rcases List.prefix_or_prefix_of_prefix ha (List.prefix_append _ _) with h | h
    · exact hk _ _ h
    · exact (hk _ _ h).symm
  refine ⟨hab, ?_⟩
  simp only [hab] at he
  exact List.append_cancel_left he

end

end FetchQuery.Sql
