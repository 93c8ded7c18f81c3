import FetchQuery.Json.Record
import FetchQuery.Proofs.JsonTokens

namespace FetchQuery.Json

/-- A field of a record, with the value it is written as. -/
abbrev Field := String × Option Json

/-- The members of a record with these fields. -/
def membersOf (fields : List Field) : List (String × Json) :=
  fields.flatMap fun f => f.2.toList.map (f.1, ·)

theorem key_of_mem_membersOf {fields : List Field} {m : String × Json} (h : m ∈ membersOf fields) :
    m.1 ∈ fields.map Prod.fst := by
  obtain ⟨f, hf, hm⟩ := List.mem_flatMap.1 h
  obtain ⟨j, _, rfl⟩ := List.mem_map.1 hm
  exact List.mem_map_of_mem hf

theorem filter_membersOf_of_not_mem {fields : List Field} {key : String} (h : key ∉ fields.map Prod.fst) :
    (membersOf fields).filter (fun m => m.1 == key) = [] := by
  rw [List.filter_eq_nil_iff]
  intro m hm hk
  rw [← beq_iff_eq.1 hk] at h
  exact h (key_of_mem_membersOf hm)

theorem filter_membersOf {fields : List Field} (hn : (fields.map Prod.fst).Nodup) {key : String}
    {value : Option Json} (h : (key, value) ∈ fields) :
    (membersOf fields).filter (fun m => m.1 == key) = value.toList.map (key, ·) := by
  induction fields with
  | nil => cases h
  | cons f fields ih =>
    rw [List.map_cons, List.nodup_cons] at hn
    rw [membersOf, List.flatMap_cons, List.filter_append, ← membersOf]
    rcases List.mem_cons.1 h with rfl | h
    · rw [filter_membersOf_of_not_mem hn.1]
      cases value <;> simp
    · have hne : f.1 ≠ key := fun he => hn.1 (he ▸ List.mem_map_of_mem h)
      rw [ih hn.2 h]
      cases f.2 <;> simp [hne]

theorem member?_membersOf {fields : List Field} (hn : (fields.map Prod.fst).Nodup) {key : String}
    {value : Option Json} (h : (key, value) ∈ fields) : member? (membersOf fields) key = some value := by
  rw [member?, filter_membersOf hn h]
  cases value <;> rfl

theorem mapM_member? {all asked : List Field} (hn : (all.map Prod.fst).Nodup) (h : asked ⊆ all) :
    (asked.map Prod.fst).mapM (member? (membersOf all)) = some (asked.map Prod.snd) := by
  induction asked with
  | nil => rfl
  | cons f asked ih =>
    rw [List.cons_subset] at h
    rw [List.map_cons, List.mapM_cons, member?_membersOf hn h.1, ih h.2]
    rfl

section

variable {all asked : List Field} {keys names : List String}

theorem namedFields_membersOf (hk : all.map Prod.fst = keys) (hn : keys.Nodup)
    (ha : asked.map Prod.fst = names) (h : asked ⊆ all) :
    namedFields names (.object (membersOf all)) = some (asked.map Prod.snd) := by
  subst hk ha
  exact mapM_member? hn h

theorem fields_membersOf (hk : all.map Prod.fst = keys) (hn : keys.Nodup) :
    Json.fields keys (.object (membersOf all)) = some (all.map Prod.snd) :=
  namedFields_membersOf hk hn hk fun _ => id

end

section

variable {α : Type} {f : Json → Option α} {g : α → Json}

theorem optional_map (hf : ∀ a, f (g a) = some a) (hg : ∀ a, g a ≠ .null) (o : Option α) :
    optional f (o.map g) = some o := by
  cases o with
  | none => rfl
  | some a =>
    rw [Option.map_some, optional, hf, Option.map_some]
    exact hg a

theorem list?_map {as : List α} (h : ∀ a ∈ as, f (g a) = some a) : list? f (.array (as.map g)) = some as := by
  rw [list?]
  induction as with
  | nil => rfl
  | cons a as ih =>
    rw [List.forall_mem_cons] at h
    rw [List.map_cons, List.mapM_cons, h.1, ih h.2]
    rfl

end

@[simp]
theorem optional_string (o : Option String) : optional string? (o.map string) = some o :=
  optional_map (f := string?) (g := string) (fun _ => rfl) (by nofun) o

@[simp]
theorem optional_bool (o : Option Bool) : optional bool? (o.map bool) = some o :=
  optional_map (f := bool?) (g := bool) (fun _ => rfl) (by nofun) o

theorem uint32?_natural (n : UInt32) : uint32? (natural n.toNat) = some n := by
  have hlt : n.toNat < UInt32.size := n.toNat_lt
  simp [uint32?, natural?, natural, hlt]

def numbersOfValue (value : Option Json) : List Number :=
  value.toList.flatMap numbers

theorem numbersOfValue_some (j : Json) : numbersOfValue (some j) = j.numbers := by
  rw [numbersOfValue, Option.toList_some, List.flatMap_singleton]

section

variable (o : Option String) (p : Option Bool) (s : String) (b : Bool)

@[simp]
theorem numbersOfValue_string : numbersOfValue (some (string s)) = [] := rfl

@[simp]
theorem numbersOfValue_bool : numbersOfValue (some (bool b)) = [] := rfl

@[simp]
theorem numbersOfValue_map_string : numbersOfValue (o.map string) = [] := by
  cases o <;> rfl

@[simp]
theorem numbersOfValue_map_bool : numbersOfValue (p.map bool) = [] := by
  cases p <;> rfl

end

theorem numbersOfValue_array {α : Type} {g : α → Json} {as : List α} (h : ∀ a ∈ as, (g a).numbers = []) :
    numbersOfValue (some (array (as.map g))) = [] := by
  rw [numbersOfValue_some, numbers, numbersOfAll_eq, List.flatMap_map, List.flatMap_eq_nil_iff]
  exact h

theorem numbers_membersOf (fields : List Field) :
    (object (membersOf fields)).numbers = fields.flatMap fun f => numbersOfValue f.2 := by
  simp only [numbers, numbersOfMembers_eq, membersOf, List.flatMap_assoc, List.flatMap_map, numbersOfValue]

theorem nesting_le_of_mem {j : Json} {js : List Json} (h : j ∈ js) : j.nesting ≤ nestingOfAll js := by
  induction js with
  | nil => cases h
  | cons k js ih =>
    rw [nestingOfAll]
    rcases List.mem_cons.1 h with rfl | h
    · omega
    · have hrest := ih h
      omega

theorem nesting_le_of_mem_members {m : String × Json} {ms : List (String × Json)} (h : m ∈ ms) :
    m.2.nesting ≤ nestingOfMembers ms := by
  induction ms with
  | nil => cases h
  | cons k ms ih =>
    rw [nestingOfMembers]
    rcases List.mem_cons.1 h with rfl | h
    · rw [nestingOfMember]
      omega
    · have hrest := ih h
      omega

/-- What is listed in a field of a record nests less than the record. -/
theorem nesting_lt_membersOf {fields : List Field} {key : String} {js : List Json} {j : Json}
    (hf : (key, some (.array js)) ∈ fields) (hj : j ∈ js) :
    j.nesting < (object (membersOf fields)).nesting := by
  have hm : (key, .array js) ∈ membersOf fields :=
    List.mem_flatMap.2 ⟨_, hf, List.mem_singleton_self _⟩
  have hmember := nesting_le_of_mem_members hm
  have hitem := nesting_le_of_mem hj
  simp only [nesting] at hmember ⊢
  omega

end FetchQuery.Json
