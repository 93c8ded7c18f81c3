import FetchQuery.Document.Json
import FetchQuery.Proofs.JsonOutcome
import Mathlib.Logic.Relation

namespace FetchQuery.Json

/-- One object in a value, at any depth, has its members in another order. -/
inductive Reorders : Json → Json → Prop
  | members {ms ns : List (String × Json)} (h : ms.Perm ns) : Reorders (.object ms) (.object ns)
  | item {j k : Json} (before after : List Json) (h : Reorders j k) :
      Reorders (.array (before ++ j :: after)) (.array (before ++ k :: after))
  | member {j k : Json} (before : List (String × Json)) (key : String) (after : List (String × Json))
      (h : Reorders j k) :
      Reorders (.object (before ++ (key, j) :: after)) (.object (before ++ (key, k) :: after))

/-- Any number of objects in a value have their members in other orders. -/
def Reordered : Json → Json → Prop := Relation.ReflTransGen Reorders

theorem nestingOfAll_append (js ks : List Json) :
    nestingOfAll (js ++ ks) = max (nestingOfAll js) (nestingOfAll ks) := by
  induction js with
  | nil => simp [nestingOfAll]
  | cons j js ih =>
    rw [List.cons_append, nestingOfAll, nestingOfAll, ih]
    omega

theorem nestingOfMembers_perm {ms ns : List (String × Json)} (h : ms.Perm ns) :
    nestingOfMembers ms = nestingOfMembers ns := by
  induction h with
  | nil => rfl
  | cons m h ih => rw [nestingOfMembers, nestingOfMembers, ih]
  | swap m n ms =>
    simp only [nestingOfMembers]
    omega
  | trans h h' ih ih' => exact ih.trans ih'

theorem eq_or_two_le_of_perm {α : Type} {as bs : List α} (h : as.Perm bs) :
    as = bs ∨ 2 ≤ as.length ∧ 2 ≤ bs.length := by
  by_cases hl : 2 ≤ as.length
  · exact .inr ⟨hl, h.length_eq ▸ hl⟩
  · left
    match as with
    | [] => exact h.nil_eq
    | [a] => exact List.singleton_perm.1 h
    | a :: b :: as => exact absurd (by simp) hl

theorem member?_of_two_le {ms : List (String × Json)} {key : String}
    (h : 2 ≤ (ms.filter fun m => m.1 == key).length) : member? ms key = none := by
  rw [member?]
  split
  next hm => simp [hm] at h
  next hm => simp [hm] at h
  next => rfl

theorem member?_perm {ms ns : List (String × Json)} (h : ms.Perm ns) (key : String) :
    member? ms key = member? ns key := by
  obtain he | ⟨hm, hn⟩ := eq_or_two_le_of_perm (h.filter fun m => m.1 == key)
  · rw [member?, member?, he]
  · rw [member?_of_two_le hm, member?_of_two_le hn]

inductive FieldReorders : Option Json → Option Json → Prop
  | same (x : Option Json) : FieldReorders x x
  | value {j k : Json} (h : Reorders j k) : FieldReorders (some j) (some k)

def FoundReorders : Option (Option Json) → Option (Option Json) → Prop := Option.Rel FieldReorders

theorem FoundReorders.same (x : Option (Option Json)) : FoundReorders x x := by
  cases x with
  | none => exact .none
  | some x => exact .some (.same x)

theorem member?_reorders {j k : Json} (h : Reorders j k) (before after : List (String × Json)) (key name : String) :
    FoundReorders (member? (before ++ (key, j) :: after) name) (member? (before ++ (key, k) :: after) name) := by
  rw [member?, member?, List.filter_append, List.filter_append, List.filter_cons, List.filter_cons]
  by_cases hk : (key == name) = true
  · rw [if_pos hk, if_pos hk]
    cases before.filter fun m => m.1 == name with
    | nil =>
      cases after.filter fun m => m.1 == name with
      | nil => exact .some (.value h)
      | cons m ms => exact .none
    | cons m ms => cases ms <;> exact .none
  · rw [if_neg hk, if_neg hk]
    exact .same _

def FieldsReorder (n : Nat) (xs ys : Option (List (Option Json))) : Prop :=
  xs = none ∧ ys = none ∨
    ∃ v w, (∀ i, FieldReorders (v i) (w i)) ∧ xs = some ((List.range n).map v) ∧ ys = some ((List.range n).map w)

theorem FieldsReorder.cons {x y : Option (Option Json)} {n : Nat} {xs ys : Option (List (Option Json))}
    (h : FoundReorders x y) (hs : FieldsReorder n xs ys) :
    FieldsReorder (n + 1) (do return (← x) :: (← xs)) (do return (← y) :: (← ys)) := by
  cases h with
  | none => exact .inl ⟨rfl, rfl⟩
  | @some x y h =>
    obtain ⟨rfl, rfl⟩ | ⟨v, w, hvw, rfl, rfl⟩ := hs
    · exact .inl ⟨rfl, rfl⟩
    · refine .inr ⟨fun | 0 => x | i + 1 => v i, fun | 0 => y | i + 1 => w i, ?_, ?_, ?_⟩
      · rintro (_ | i)
        · exact h
        · exact hvw i
      · simp [List.range_succ_eq_map]
      · simp [List.range_succ_eq_map]

namespace FieldsReorder

theorem same (xs : List (Option Json)) : FieldsReorder xs.length (some xs) (some xs) := by
  induction xs with
  | nil => exact .inr ⟨fun _ => none, fun _ => none, fun _ => .same none, rfl, rfl⟩
  | cons x xs ih => exact ih.cons (.same (some x))

theorem place {j k : Json} (h : Reorders j k) (before after : List (Option Json)) :
    FieldsReorder (before ++ some j :: after).length (some (before ++ some j :: after))
      (some (before ++ some k :: after)) := by
  induction before with
  | nil => exact (same after).cons (.some (.value h))
  | cons x before ih => exact ih.cons (.same (some x))

theorem mapM {f g : String → Option (Option Json)} (h : ∀ name, FoundReorders (f name) (g name))
    (names : List String) : FieldsReorder names.length (names.mapM f) (names.mapM g) := by
  induction names with
  | nil => exact same []
  | cons name names ih =>
    rw [List.mapM_cons, List.mapM_cons]
    exact ih.cons (h name)

/-- A reader of fields that ignores reordering in each of them ignores it in the record. -/
theorem bind_eq {α : Type} {n : Nat} {xs ys : Option (List (Option Json))} (h : FieldsReorder n xs ys)
    {read : List (Option Json) → Option α}
    (hr : ∀ v w : Nat → Option Json, (∀ i, FieldReorders (v i) (w i)) →
      read ((List.range n).map v) = read ((List.range n).map w)) : xs >>= read = ys >>= read := by
  obtain ⟨rfl, rfl⟩ | ⟨v, w, hvw, rfl, rfl⟩ := h
  · rfl
  · exact hr v w hvw

end FieldsReorder

theorem namedFields_reorders (names : List String) {j k : Json} (h : Reorders j k) :
    FieldsReorder names.length (namedFields names j) (namedFields names k) := by
  cases h with
  | members h => exact .mapM (fun name => member?_perm h name ▸ .same _) names
  | item before after h => exact .inl ⟨rfl, rfl⟩
  | member before key after h => exact .mapM (member?_reorders h before after key) names

theorem fields_reorders (names : List String) {j k : Json} (h : Reorders j k) :
    FieldsReorder names.length (fields names j) (fields names k) := by
  cases h with
  | members h => exact namedFields_reorders names (.members h)
  | @item j k before after h =>
    have hlength : (before ++ k :: after).length = (before ++ j :: after).length := by simp
    rw [fields, fields, hlength]
    by_cases hn : (before ++ j :: after).length ≤ names.length
    · let rest := after.map some ++ List.replicate (names.length - (before ++ j :: after).length) none
      have hcount : (before.map some ++ some j :: rest).length = names.length := by
        simp only [rest, List.length_append, List.length_cons, List.length_map, List.length_replicate] at hn ⊢
        omega
      have hplace := FieldsReorder.place h (before.map some) rest
      rw [hcount] at hplace
      rw [if_pos hn, if_pos hn]
      simpa [rest] using hplace
    · rw [if_neg hn, if_neg hn]
      exact .inl ⟨rfl, rfl⟩
  | member before key after h => exact namedFields_reorders names (.member before key after h)

/-- What is told of a value is the same when the value is reordered. -/
def IgnoresOrder {β : Type} (f : Json → β) : Prop := ∀ ⦃j k : Json⦄, Reorders j k → f j = f k

theorem IgnoresOrder.reordered {β : Type} {f : Json → β} (hf : IgnoresOrder f) {j k : Json} (h : Reordered j k) :
    f j = f k := by
  induction h with
  | refl => rfl
  | tail _ h ih => exact ih.trans (hf h)

theorem ignoresOrder_nesting : IgnoresOrder nesting := by
  intro j k h
  induction h with
  | members h => rw [nesting, nesting, nestingOfMembers_perm h]
  | item before after h ih => simp only [nesting, nestingOfAll_append, nestingOfAll, ih]
  | member before key after h ih =>
    simp only [nesting, nestingOfMembers_append, nestingOfMembers, nestingOfMember, ih]

theorem ignoresOrder_nesting_kept (ignored : String → Bool) : IgnoresOrder fun j => (j.kept ignored).nesting := by
  intro j k h
  cases h with
  | members h => exact ignoresOrder_nesting (.members (h.filter _))
  | item before after h => exact ignoresOrder_nesting (.item before after h)
  | @member j k before key after h =>
    have hkept : ∀ v : Json, kept ignored (.object (before ++ (key, v) :: after)) =
        .object (keptMembers ignored before ++ keptMembers ignored [(key, v)] ++ keptMembers ignored after) := by
      intro v
      simp [kept, keptMembers, ← List.filter_append]
    simp only [hkept]
    by_cases hi : ignored key = true
    · simp [keptMembers, hi]
    · have hmember := ignoresOrder_nesting
        (.member (keptMembers ignored before) key (keptMembers ignored after) h)
      simpa [keptMembers, hi] using hmember

theorem ignoresOrder_string? : IgnoresOrder string? := by
  intro j k h
  cases h <;> rfl

theorem ignoresOrder_bool? : IgnoresOrder bool? := by
  intro j k h
  cases h <;> rfl

theorem ignoresOrder_uint32? : IgnoresOrder uint32? := by
  intro j k h
  cases h <;> rfl

namespace IgnoresOrder

variable {α : Type} {f : Json → Option α} (hf : IgnoresOrder f)

include hf

theorem list? : IgnoresOrder (list? f) := by
  intro j k h
  cases h with
  | members h => rfl
  | item before after h => simp only [Json.list?, List.mapM_append, List.mapM_cons, hf h]
  | member before key after h => rfl

variable {x y : Option Json} (h : FieldReorders x y)

include h

theorem required : required f x = required f y := by
  cases h with
  | same x => rfl
  | value h => exact hf h

theorem defaulted (default : α) : defaulted default f x = defaulted default f y := by
  cases h with
  | same x => rfl
  | value h => exact hf h

theorem optional : optional f x = optional f y := by
  cases h with
  | same x => rfl
  | @value j k h =>
    -- A null leaves the field unset, but no null can be reordered.
    have hread : Json.optional f (some j) = (f j).map some ∧ Json.optional f (some k) = (f k).map some := by
      cases h <;> exact ⟨rfl, rfl⟩
    rw [hread.1, hread.2, hf h]

end IgnoresOrder

end FetchQuery.Json

namespace FetchQuery.Document

open Json

theorem Attribute.ignoresOrder : IgnoresOrder ofJson? := by
  intro j k h
  rw [ofJson?, ofJson?]
  apply (fields_reorders _ h).bind_eq
  intro v w hvw
  simp [List.range_succ, fun i => ignoresOrder_string?.required (hvw i),
    fun i => ignoresOrder_string?.optional (hvw i), fun i => ignoresOrder_bool?.optional (hvw i)]

theorem Condition.ignoresOrder : IgnoresOrder ofJson? := by
  intro j k h
  rw [ofJson?, ofJson?]
  apply (fields_reorders _ h).bind_eq
  intro v w hvw
  simp [List.range_succ, fun i => ignoresOrder_string?.required (hvw i),
    fun i => ignoresOrder_string?.optional (hvw i), fun i => ignoresOrder_string?.list?.defaulted (hvw i)]

theorem Order.ignoresOrder : IgnoresOrder ofJson? := by
  intro j k h
  rw [ofJson?, ofJson?]
  apply (fields_reorders _ h).bind_eq
  intro v w hvw
  simp [List.range_succ, fun i => ignoresOrder_string?.required (hvw i),
    fun i => ignoresOrder_string?.optional (hvw i), fun i => ignoresOrder_bool?.defaulted (hvw i)]

theorem connective?_of_two_le {ms : List (String × Json)} (h : 2 ≤ ms.length) : connective? (.object ms) = none := by
  rw [connective?]
  all_goals
    intro name he
    cases he
  all_goals simp at h

theorem connective?_over_object (key : String) {ms : List (String × Json)} (h : ms ≠ []) :
    connective? (.object [(key, .object ms)]) = none := by
  rw [connective?]
  all_goals
    intro name he
    cases he
  exact h rfl

theorem ignoresOrder_connective? : IgnoresOrder connective? := by
  intro j k h
  cases h with
  | members h =>
    obtain rfl | ⟨hm, hn⟩ := eq_or_two_le_of_perm h
    · rfl
    · rw [connective?_of_two_le hm, connective?_of_two_le hn]
  | item before after h => rfl
  | @member j k before key after h =>
    by_cases hl : 2 ≤ (before ++ (key, j) :: after).length
    · rw [connective?_of_two_le hl, connective?_of_two_le (by simpa using hl)]
    · -- A name alone over a value: only nothing may stand under it, and nothing cannot be reordered.
      obtain ⟨rfl, rfl⟩ : before = [] ∧ after = [] := by
        rw [List.length_append, List.length_cons] at hl
        exact ⟨List.length_eq_zero_iff.1 (by omega), List.length_eq_zero_iff.1 (by omega)⟩
      cases h with
      | members h =>
        obtain rfl | ⟨hm, hn⟩ := eq_or_two_le_of_perm h
        · rfl
        · exact (connective?_over_object key (List.ne_nil_of_length_pos (by omega))).trans
            (connective?_over_object key (List.ne_nil_of_length_pos (by omega))).symm
      | item before after h => rfl
      | member before name after h =>
        exact (connective?_over_object key (by simp)).trans (connective?_over_object key (by simp)).symm

namespace Filter

theorem read?_ignoresOrder (depth : Nat) : IgnoresOrder (read? depth) := by
  induction depth with
  | zero =>
    intro j k _
    rfl
  | succ depth ih =>
    intro j k h
    rw [read?, read?]
    apply (fields_reorders _ h).bind_eq
    intro v w hvw
    simp [List.range_succ, fun i => ignoresOrder_connective?.defaulted (hvw i),
      fun i => Condition.ignoresOrder.list?.defaulted (hvw i), fun i => ih.list?.defaulted (hvw i)]

theorem ignoresOrder : IgnoresOrder ofJson? := by
  intro j k h
  rw [ofJson?, ofJson?, ignoresOrder_nesting h, read?_ignoresOrder _ h]

end Filter

theorem Scope.ignoresOrder : IgnoresOrder ofJson? := by
  intro j k h
  rw [ofJson?, ofJson?]
  apply (namedFields_reorders _ h).bind_eq
  intro v w hvw
  simp [List.range_succ, fun i => ignoresOrder_bool?.defaulted (hvw i),
    fun i => Attribute.ignoresOrder.list?.defaulted (hvw i), fun i => Filter.ignoresOrder.list?.defaulted (hvw i),
    fun i => Order.ignoresOrder.list?.defaulted (hvw i)]

namespace Link

theorem read?_ignoresOrder (depth : Nat) : IgnoresOrder (read? depth) := by
  induction depth with
  | zero =>
    intro j k _
    rfl
  | succ depth ih =>
    intro j k h
    rw [read?, read?, Scope.ignoresOrder h]
    apply (namedFields_reorders _ h).bind_eq
    intro v w hvw
    simp [List.range_succ, fun i => ignoresOrder_string?.required (hvw i),
      fun i => ignoresOrder_string?.optional (hvw i), fun i => ignoresOrder_string?.defaulted (hvw i),
      fun i => ih.list?.defaulted (hvw i)]

theorem ignoresOrder : IgnoresOrder ofJson? := by
  intro j k h
  rw [ofJson?, ofJson?, ignoresOrder_nesting h, read?_ignoresOrder _ h]

end Link

theorem Entity.ignoresOrder : IgnoresOrder ofJson? := by
  intro j k h
  rw [ofJson?, ofJson?, Scope.ignoresOrder h]
  apply (namedFields_reorders _ h).bind_eq
  intro v w hvw
  simp [List.range_succ, fun i => ignoresOrder_string?.required (hvw i),
    fun i => Link.ignoresOrder.list?.defaulted (hvw i)]

theorem ofJson?_ignoresOrder : IgnoresOrder ofJson? := by
  intro j k h
  rw [ofJson?, ofJson?]
  apply (fields_reorders _ h).bind_eq
  intro v w hvw
  simp [fieldNames, List.range_succ, fun i => ignoresOrder_bool?.optional (hvw i),
    fun i => ignoresOrder_uint32?.optional (hvw i), fun i => Entity.ignoresOrder.list?.defaulted (hvw i)]

/-- Keys of the outermost object that belong to no field of a document. -/
def isForeign (key : String) : Bool := !fieldNames.contains key

theorem ofJson?_kept (j : Json) : ofJson? (j.kept isForeign) = ofJson? j := by
  cases j with
  | object ms =>
    have hfields : Json.fields fieldNames (.object (keptMembers isForeign ms)) =
        Json.fields fieldNames (.object ms) :=
      namedFields_keptMembers (by decide) ms
    rw [ofJson?, ofJson?, kept, hfields]
  | null | bool _ | number _ | string _ | array _ => rfl

/-- A text is read as the value that it spells, unless what is read of this nests too deep. -/
theorem parse_of_spells {s : String} {j : Json} (h : Spells s j) :
    parse s = if (j.kept isForeign).nesting ≤ maxNesting then ofJson? j else none := by
  have hparse : parse s = (parseIgnoring isForeign s).bind ofJson? := rfl
  rw [hparse, parseIgnoring_of_spells isForeign h]
  by_cases hn : (j.kept isForeign).nesting ≤ maxNesting
  · rw [if_pos hn, if_pos hn, Option.bind_some, ofJson?_kept]
  · rw [if_neg hn, if_neg hn, Option.bind_none]

/-- Values that differ in the order of members only are the same document, or both are none; and so are any two
texts that spell them. -/
theorem parse_reordered {j k : Json} (h : Reordered j k) :
    ofJson? j = ofJson? k ∧ ∀ s t : String, Spells s j → Spells t k → parse s = parse t := by
  have hread : ofJson? j = ofJson? k := ofJson?_ignoresOrder.reordered h
  have hnesting := (ignoresOrder_nesting_kept isForeign).reordered h
  refine ⟨hread, ?_⟩
  intro s t hs ht
  rw [parse_of_spells hs, parse_of_spells ht, hread, hnesting]

def taskMembers (entity : List (String × Json)) : List (String × Json) :=
  [("note", natural 1), ("entity", .array [.object entity]), ("note", .null), ("top", natural 5)]

def taskEntity (link : List (String × Json)) : List (String × Json) :=
  [("name", .string "task"), ("link-entity", .array [.object link])]

def ownerLink : List (String × Json) :=
  [("name", .string "user"), ("from", .string "id"), ("to", .string "owner")]

def tasks : Json := .object (taskMembers (taskEntity ownerLink))

def tasksReversed : Json := .object (taskMembers (taskEntity ownerLink.reverse).reverse).reverse

theorem reordered_tasks : Reordered tasks tasksReversed := by
  have hreverse : ∀ ms : List (String × Json), Reorders (.object ms) (.object ms.reverse) :=
    fun ms => .members (List.reverse_perm ms).symm
  have hentity : ∀ {es fs : List (String × Json)}, Reorders (.object es) (.object fs) →
      Reorders (.object (taskMembers es)) (.object (taskMembers fs)) :=
    fun h => .member [("note", natural 1)] "entity" [("note", .null), ("top", natural 5)] (.item [] [] h)
  have hlink : Reorders (.object (taskEntity ownerLink)) (.object (taskEntity ownerLink.reverse)) :=
    .member [("name", .string "task")] "link-entity" [] (.item [] [] (hreverse ownerLink))
  exact ((Relation.ReflTransGen.single (hentity hlink)).tail (hentity (hreverse _))).tail (hreverse _)

theorem parse_reordered_tasks :
    Reordered tasks tasksReversed ∧ ofJson? tasks = ofJson? tasksReversed ∧
      parse tasks.text = parse tasksReversed.text ∧
      ofJson? tasksReversed = some {
        top := some 5
        entities := [{
          name := "task"
          links := [{ name := "user", fromColumns := "id", toColumns := "owner" }] }] } := by
  have hone : (Number.integer (1 : Nat)).IsLegible := Number.isLegible_of_lt (by decide)
  have hfive : (Number.integer (5 : Nat)).IsLegible := Number.isLegible_of_lt (by decide)
  have hlegible : (∀ n ∈ tasks.numbers, n.IsLegible) ∧ ∀ n ∈ tasksReversed.numbers, n.IsLegible := by
    have hnumbers : tasks.numbers = [.integer (1 : Nat), .integer (5 : Nat)] := rfl
    have hreversed : tasksReversed.numbers = [.integer (5 : Nat), .integer (1 : Nat)] := rfl
    rw [hnumbers, hreversed]
    simp only [List.forall_mem_cons, List.not_mem_nil, false_imp_iff, implies_true, and_true]
    exact ⟨⟨hone, hfive⟩, hfive, hone⟩
  obtain ⟨hread, hparse⟩ := parse_reordered reordered_tasks
  exact ⟨reordered_tasks, hread, hparse _ _ (spells_text _ hlegible.1) (spells_text _ hlegible.2), rfl⟩

end FetchQuery.Document
