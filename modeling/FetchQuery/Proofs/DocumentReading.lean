import FetchQuery.Document.Json
import FetchQuery.Proofs.JoinOrder
import FetchQuery.Proofs.JsonNumber
import FetchQuery.Proofs.JsonReading
import FetchQuery.Proofs.JsonRecord

namespace FetchQuery.Document

open Json

theorem given_eq {α : Type} (key : String) (f : α → Json) (o : Option α) :
    given key f o = (o.map f).toList.map (key, ·) := by
  cases o <;> rfl

namespace Attribute

def fields (a : Attribute) : List Field :=
  [("name", some (.string a.name)), ("alias", a.aliasName.map .string),
    ("aggregate", a.aggregate.map .string), ("groupby", a.groupBy.map .bool),
    ("distinct", a.distinct.map .bool)]

theorem toJson_eq (a : Attribute) : a.toJson = .object (membersOf a.fields) := by
  simp [toJson, fields, membersOf, given_eq]

theorem ofJson?_toJson (a : Attribute) : ofJson? a.toJson = some a := by
  have hkeys : a.fields.map Prod.fst = ["name", "alias", "aggregate", "groupby", "distinct"] := rfl
  rw [toJson_eq, ofJson?, fields_membersOf hkeys (by decide)]
  simp [fields, required, string?]

theorem numbers_toJson (a : Attribute) : a.toJson.numbers = [] := by
  rw [toJson_eq, numbers_membersOf]
  simp [fields]

end Attribute

namespace Condition

def valuesField (values : List String) : Option Json :=
  if values.isEmpty then none else some (.array (values.map .string))

theorem defaulted_valuesField (values : List String) :
    defaulted [] (list? string?) (valuesField values) = some values := by
  cases values with
  | nil => rfl
  | cons v vs => exact list?_map fun _ _ => rfl

def fields (c : Condition) : List Field :=
  [("attribute", some (.string c.column)), ("operator", some (.string c.operator)),
    ("entityname", c.entityName.map .string), ("alias", c.tableAlias.map .string),
    ("value", c.value.map .string), ("values", valuesField c.values)]

theorem toJson_eq (c : Condition) : c.toJson = .object (membersOf c.fields) := by
  by_cases h : c.values.isEmpty <;> simp [toJson, fields, valuesField, membersOf, given_eq, h]

theorem ofJson?_toJson (c : Condition) : ofJson? c.toJson = some c := by
  have hkeys : c.fields.map Prod.fst =
    ["attribute", "operator", "entityname", "alias", "value", "values"] := rfl
  rw [toJson_eq, ofJson?, fields_membersOf hkeys (by decide)]
  simp [fields, required, string?, defaulted_valuesField]

theorem numbers_valuesField (values : List String) : numbersOfValue (valuesField values) = [] := by
  cases values with
  | nil => rfl
  | cons v vs => exact numbersOfValue_array fun _ _ => rfl

theorem numbers_toJson (c : Condition) : c.toJson.numbers = [] := by
  rw [toJson_eq, numbers_membersOf]
  simp [fields, numbers_valuesField]

end Condition

namespace Order

def fields (o : Order) : List Field :=
  [("attribute", some (.string o.column)), ("alias", o.tableAlias.map .string),
    ("descending", some (.bool o.descending))]

theorem toJson_eq (o : Order) : o.toJson = .object (membersOf o.fields) := by
  simp [toJson, fields, membersOf, given_eq]

theorem ofJson?_toJson (o : Order) : ofJson? o.toJson = some o := by
  have hkeys : o.fields.map Prod.fst = ["attribute", "alias", "descending"] := rfl
  rw [toJson_eq, ofJson?, fields_membersOf hkeys (by decide)]
  simp [fields, required, defaulted, string?, bool?]

theorem numbers_toJson (o : Order) : o.toJson.numbers = [] := by
  rw [toJson_eq, numbers_membersOf]
  simp [fields]

end Order

theorem connective?_keyword (c : Statement.Connective) : connective? (.string c.keyword) = some c := by
  cases c <;> rfl

namespace Filter

mutual

/-- What holds of a filter once it holds of those nested in it holds of every filter. -/
theorem nested_induction {P : Filter → Prop} (step : ∀ f, (∀ g ∈ f.subfilters, P g) → P f) (f : Filter) :
    P f := by
  match f with
  | ⟨_, _, subfilters⟩ => exact step _ (nested_induction_all step subfilters)

theorem nested_induction_all {P : Filter → Prop} (step : ∀ f, (∀ g ∈ f.subfilters, P g) → P f)
    (fs : List Filter) : ∀ g ∈ fs, P g := by
  match fs with
  | [] => exact nofun
  | f :: fs =>
    rw [List.forall_mem_cons]
    exact ⟨nested_induction step f, nested_induction_all step fs⟩

end

/-- A filter is made of its fields; of a type nested in itself this does not hold by definition. -/
theorem eta (f : Filter) : ⟨f.connective, f.conditions, f.subfilters⟩ = f := by
  cases f
  rfl

def fields (f : Filter) : List Field :=
  [("type", some (.string f.connective.keyword)),
    ("condition", some (.array (f.conditions.map Condition.toJson))),
    ("filter", some (.array (f.subfilters.map toJson)))]

theorem toJsons_eq_map (fs : List Filter) : toJsons fs = fs.map toJson := by
  induction fs with
  | nil => rfl
  | cons f fs ih => rw [toJsons, ih, List.map_cons]

theorem toJson_eq (f : Filter) : f.toJson = .object (membersOf f.fields) := by
  obtain ⟨connective, conditions, subfilters⟩ := f
  simp [toJson, toJsons_eq_map, fields, membersOf]

theorem nesting_toJson_lt {f g : Filter} (h : g ∈ f.subfilters) : g.toJson.nesting < f.toJson.nesting := by
  have hfield : ("filter", some (.array (f.subfilters.map toJson))) ∈ f.fields := by simp [fields]
  rw [toJson_eq f]
  exact nesting_lt_membersOf hfield (List.mem_map_of_mem h)

/-- A filter is read again by following it as far as it nests, or further. -/
theorem read?_toJson (f : Filter) {depth : Nat} (h : f.toJson.nesting ≤ depth) :
    read? depth f.toJson = some f := by
  induction f using nested_induction generalizing depth with
  | step f ih =>
    cases depth with
    | zero =>
      rw [toJson_eq, nesting] at h
      omega
    | succ depth =>
      have hkeys : f.fields.map Prod.fst = ["type", "condition", "filter"] := rfl
      have hconditions : list? Condition.ofJson? (.array (f.conditions.map Condition.toJson)) =
          some f.conditions := list?_map fun c _ => c.ofJson?_toJson
      have hsubfilters : list? (read? depth) (.array (f.subfilters.map toJson)) = some f.subfilters :=
        list?_map fun g hg => ih g hg (by have hlt := nesting_toJson_lt hg; omega)
      rw [toJson_eq, read?, fields_membersOf hkeys (by decide)]
      simp [fields, defaulted, connective?_keyword, hconditions, hsubfilters, eta]

theorem ofJson?_toJson (f : Filter) : ofJson? f.toJson = some f :=
  f.read?_toJson le_rfl

theorem numbers_toJson (f : Filter) : f.toJson.numbers = [] := by
  induction f using nested_induction with
  | step f ih =>
    have hconditions := numbersOfValue_array fun c (_ : c ∈ f.conditions) => c.numbers_toJson
    have hsubfilters := numbersOfValue_array ih
    rw [toJson_eq, numbers_membersOf]
    simp [fields, hconditions, hsubfilters]

end Filter

namespace Scope

def fields (s : Scope) : List Field :=
  [("all-attributes", some (.bool s.allAttributes)),
    ("attribute", some (.array (s.attributes.map Attribute.toJson))),
    ("filter", some (.array (s.filters.map Filter.toJson))),
    ("order", some (.array (s.orders.map Order.toJson)))]

theorem ofJson?_membersOf {s : Scope} {all : List Field} {keys : List String}
    (hk : all.map Prod.fst = keys) (hn : keys.Nodup) (h : s.fields ⊆ all) :
    ofJson? (.object (membersOf all)) = some s := by
  have hkeys : s.fields.map Prod.fst = ["all-attributes", "attribute", "filter", "order"] := rfl
  have hattributes : list? Attribute.ofJson? (.array (s.attributes.map Attribute.toJson)) =
      some s.attributes := list?_map fun a _ => a.ofJson?_toJson
  have hfilters : list? Filter.ofJson? (.array (s.filters.map Filter.toJson)) = some s.filters :=
    list?_map fun f _ => f.ofJson?_toJson
  have horders : list? Order.ofJson? (.array (s.orders.map Order.toJson)) = some s.orders :=
    list?_map fun o _ => o.ofJson?_toJson
  rw [ofJson?, namedFields_membersOf hk hn hkeys h]
  simp [fields, defaulted, bool?, hattributes, hfilters, horders]

theorem numbers_fields (s : Scope) : (s.fields.flatMap fun f => numbersOfValue f.2) = [] := by
  have hattributes := numbersOfValue_array fun a (_ : a ∈ s.attributes) => a.numbers_toJson
  have hfilters := numbersOfValue_array fun f (_ : f ∈ s.filters) => f.numbers_toJson
  have horders := numbersOfValue_array fun o (_ : o ∈ s.orders) => o.numbers_toJson
  simp [fields, hattributes, hfilters, horders]

end Scope

section

/-- The fields of an entity or a link: those of its scope stand between its own and the links in it. -/
def recordFields (own : List Field) (scope : Scope) (links : List Link) : List Field :=
  own ++ scope.fields ++ [("link-entity", some (.array (links.map Link.toJson)))]

variable {own : List Field} {scope : Scope} {links : List Link} {keys names : List String}

theorem scope_fields_subset : scope.fields ⊆ recordFields own scope links := by
  intro f hf
  simp [recordFields, hf]

theorem own_subset :
    own ++ [("link-entity", some (.array (links.map Link.toJson)))] ⊆ recordFields own scope links := by
  intro f hf
  rcases List.mem_append.1 hf with hf | hf
  · simp [recordFields, hf]
  · exact List.mem_append_right _ hf

theorem namedFields_recordFields (hk : (recordFields own scope links).map Prod.fst = keys) (hn : keys.Nodup)
    (ho : own.map Prod.fst ++ ["link-entity"] = names) :
    namedFields names (.object (membersOf (recordFields own scope links))) =
      some (own.map Prod.snd ++ [some (.array (links.map Link.toJson))]) := by
  rw [namedFields_membersOf hk hn (by rw [List.map_append, ← ho]; rfl) own_subset, List.map_append]
  rfl

theorem numbers_recordFields (ho : (own.flatMap fun f => numbersOfValue f.2) = [])
    (hl : ∀ l ∈ links, l.toJson.numbers = []) :
    (Json.object (membersOf (recordFields own scope links))).numbers = [] := by
  rw [numbers_membersOf, recordFields, List.flatMap_append, List.flatMap_append, ho, scope.numbers_fields,
    List.flatMap_singleton, numbersOfValue_array hl]
  rfl

end

namespace Link

theorem eta (l : Link) :
    ⟨l.name, l.aliasName, l.linkType, l.fromColumns, l.toColumns, l.scope, l.links⟩ = l := by
  cases l
  rfl

def ownFields (l : Link) : List Field :=
  [("name", some (.string l.name)), ("alias", l.aliasName.map .string),
    ("link-type", l.linkType.map .string), ("from", some (.string l.fromColumns)),
    ("to", some (.string l.toColumns))]

def fields (l : Link) : List Field := recordFields l.ownFields l.scope l.links

def keys : List String :=
  ["name", "alias", "link-type", "from", "to", "all-attributes", "attribute", "filter", "order",
    "link-entity"]

theorem keys_fields (l : Link) : l.fields.map Prod.fst = keys := rfl

theorem toJsons_eq_map (ls : List Link) : toJsons ls = ls.map toJson := by
  induction ls with
  | nil => rfl
  | cons l ls ih => rw [toJsons, ih, List.map_cons]

theorem toJson_eq (l : Link) : l.toJson = .object (membersOf l.fields) := by
  obtain ⟨name, aliasName, linkType, fromColumns, toColumns, scope, links⟩ := l
  simp [toJson, toJsons_eq_map, fields, recordFields, ownFields, Scope.fields, Scope.members, membersOf,
    given_eq]

theorem nesting_toJson_lt {l m : Link} (h : m ∈ l.links) : m.toJson.nesting < l.toJson.nesting := by
  have hfield : ("link-entity", some (.array (l.links.map toJson))) ∈ l.fields := by
    simp [fields, recordFields]
  rw [toJson_eq l]
  exact nesting_lt_membersOf hfield (List.mem_map_of_mem h)

theorem read?_toJson (l : Link) {depth : Nat} (h : l.toJson.nesting ≤ depth) :
    read? depth l.toJson = some l := by
  induction l using nested_induction generalizing depth with
  | step l ih =>
    cases depth with
    | zero =>
      rw [toJson_eq, nesting] at h
      omega
    | succ depth =>
      have hown : l.ownFields.map Prod.fst ++ ["link-entity"] =
        ["name", "alias", "link-type", "from", "to", "link-entity"] := rfl
      have hscope : Scope.ofJson? (.object (membersOf l.fields)) = some l.scope :=
        Scope.ofJson?_membersOf l.keys_fields (by decide) scope_fields_subset
      have hlinks : list? (read? depth) (.array (l.links.map toJson)) = some l.links :=
        list?_map fun m hm => ih m hm (by have hlt := nesting_toJson_lt hm; omega)
      rw [toJson_eq, read?, hscope, fields, namedFields_recordFields l.keys_fields (by decide) hown]
      simp [ownFields, required, defaulted, string?, hlinks, eta]

theorem ofJson?_toJson (l : Link) : ofJson? l.toJson = some l :=
  l.read?_toJson le_rfl

theorem numbers_toJson (l : Link) : l.toJson.numbers = [] := by
  induction l using nested_induction with
  | step l ih =>
    rw [toJson_eq]
    exact numbers_recordFields (by simp [ownFields]) ih

end Link

namespace Entity

def ownFields (e : Entity) : List Field := [("name", some (.string e.name))]

def fields (e : Entity) : List Field := recordFields e.ownFields e.scope e.links

def keys : List String :=
  ["name", "all-attributes", "attribute", "filter", "order", "link-entity"]

theorem keys_fields (e : Entity) : e.fields.map Prod.fst = keys := rfl

theorem toJson_eq (e : Entity) : e.toJson = .object (membersOf e.fields) := by
  simp [toJson, fields, recordFields, ownFields, Scope.fields, Scope.members, membersOf]

theorem ofJson?_toJson (e : Entity) : ofJson? e.toJson = some e := by
  have hown : e.ownFields.map Prod.fst ++ ["link-entity"] = ["name", "link-entity"] := rfl
  have hscope : Scope.ofJson? (.object (membersOf e.fields)) = some e.scope :=
    Scope.ofJson?_membersOf e.keys_fields (by decide) scope_fields_subset
  have hlinks : list? Link.ofJson? (.array (e.links.map Link.toJson)) = some e.links :=
    list?_map fun l _ => l.ofJson?_toJson
  rw [toJson_eq, ofJson?, hscope, fields, namedFields_recordFields e.keys_fields (by decide) hown]
  simp [ownFields, required, defaulted, string?, hlinks]

theorem numbers_toJson (e : Entity) : e.toJson.numbers = [] := by
  rw [toJson_eq]
  exact numbers_recordFields (by simp [ownFields]) fun l _ => l.numbers_toJson

end Entity

def fields (d : Document) : List Field :=
  [("distinct", d.distinct.map .bool), ("top", d.top.map fun n => natural n.toNat),
    ("entity", some (.array (d.entities.map Entity.toJson)))]

theorem toJson_eq (d : Document) : d.toJson = .object (membersOf d.fields) := by
  simp [toJson, fields, membersOf, given_eq]

theorem ofJson?_toJson (d : Document) : ofJson? d.toJson = some d := by
  have hkeys : d.fields.map Prod.fst = fieldNames := rfl
  have htop : optional uint32? (d.top.map fun n => natural n.toNat) = some d.top :=
    optional_map (f := uint32?) (g := fun n => natural n.toNat) uint32?_natural (by nofun) d.top
  have hentities : list? Entity.ofJson? (.array (d.entities.map Entity.toJson)) = some d.entities :=
    list?_map fun e _ => e.ofJson?_toJson
  rw [toJson_eq, ofJson?, fields_membersOf hkeys (by decide)]
  simp [fields, defaulted, htop, hentities]

theorem numbersOfValue_natural (top : Option UInt32) :
    numbersOfValue (top.map fun n => natural n.toNat) = top.toList.map fun n => Number.integer n.toNat := by
  cases top <;> rfl

theorem numbers_toJson (d : Document) :
    d.toJson.numbers = d.top.toList.map fun n => Number.integer n.toNat := by
  have hentities := numbersOfValue_array fun e (_ : e ∈ d.entities) => e.numbers_toJson
  rw [toJson_eq, numbers_membersOf]
  simp only [fields, List.flatMap_cons, numbersOfValue_map_bool, numbersOfValue_natural, hentities,
    List.flatMap_nil, List.nil_append, List.append_nil]

theorem isLegible_of_mem_numbers {d : Document} {n : Number} (h : n ∈ d.toJson.numbers) : n.IsLegible := by
  rw [numbers_toJson] at h
  obtain ⟨top, _, rfl⟩ := List.mem_map.1 h
  exact Number.isLegible_uint32 top

theorem keeps_toJson (d : Document) : Keeps (fun key => !fieldNames.contains key) d.toJson := by
  rw [toJson_eq]
  intro m hm
  have hkey : m.1 ∈ fieldNames := key_of_mem_membersOf hm
  simpa using hkey

/-- A document that nests less than the reader's limit is read from its own text exactly as it is. -/
theorem parse_text_toJson (d : Document) (h : d.toJson.nesting < 128) :
    parse d.toJson.text = some d := by
  have hn : d.toJson.nesting ≤ maxNesting := Nat.le_of_lt_succ h
  rw [parse, parseIgnoring_text _ _ (fun _ => isLegible_of_mem_numbers) hn d.keeps_toJson]
  exact d.ofJson?_toJson

def escapedFilter : Filter where
  conditions := [{ column := "name", operator := "eq", value := some "\t\"" }]
  subfilters := [{
    connective := .or
    conditions := [{ column := "state", operator := "in", entityName := some "t\"1\"",
                     values := ["a\\b", "😀\x00"] }] }]

def escapedLink : Link where
  name := "user"
  linkType := some "outer"
  fromColumns := "id,kind"
  toColumns := "owner"
  links := [{ name := "Überträger", aliasName := some "", scope := { allAttributes := true } }]

def escapedTasks : Document where
  distinct := some false
  top := some 4294967295
  entities := [{
    name := "task\n"
    scope := {
      attributes := [{ name := "id", aggregate := some "count", groupBy := some true }]
      filters := [escapedFilter]
      orders := [{ column := "id", tableAlias := some "t", descending := true }] }
    links := [escapedLink] }]

theorem parse_text_toJson_escapedTasks :
    escapedTasks.toJson.nesting < 128 ∧ parse escapedTasks.toJson.text = some escapedTasks :=
  ⟨by decide, parse_text_toJson escapedTasks (by decide)⟩

end FetchQuery.Document
