import FetchQuery.Proofs.JoinOrder

namespace FetchQuery.Statement

def Select.tables (s : Select) : List AliasedName := s.source :: s.joins.map (·.target)

theorem filter_eq_singleton {α : Type} {key : α → String} {items : List α} (hn : (items.map key).Nodup)
    {a : α} (ha : a ∈ items) : items.filter (key · = key a) = [a] := by
  induction items with
  | nil => cases ha
  | cons b items ih =>
    rw [List.map_cons, List.nodup_cons] at hn
    by_cases hb : key b = key a
    · have hnot : a ∉ items := fun hm => hn.1 (hb ▸ List.mem_map_of_mem hm)
      obtain rfl : a = b := (List.mem_cons.1 ha).resolve_right hnot
      have hrest : items.filter (key · = key a) = [] := by
        rw [List.filter_eq_nil_iff]
        intro c hc he
        exact hn.1 (of_decide_eq_true he ▸ List.mem_map_of_mem hc)
      rw [List.filter_cons_of_pos (by simp), hrest]
    · have hm : a ∈ items := (List.mem_cons.1 ha).resolve_left fun he => hb (he ▸ rfl)
      rw [List.filter_cons_of_neg (by simpa using hb), ih hn.2 hm]

end FetchQuery.Statement

namespace FetchQuery.Document

open Statement (AliasedName Join Select normalizeJoins)

namespace Link

mutual

def all : Link → List Link
  | link@⟨_, _, _, _, _, _, links⟩ => link :: allOf links

def allOf : List Link → List Link
  | [] => []
  | l :: ls => l.all ++ allOf ls

end

theorem allOf_eq_flatMap (ls : List Link) : allOf ls = ls.flatMap all := by
  induction ls with
  | nil => rfl
  | cons l ls ih => rw [allOf, ih, List.flatMap_cons]

theorem all_eq (l : Link) : l.all = l :: l.links.flatMap all := by
  obtain ⟨name, aliasName, linkType, fromColumns, toColumns, scope, links⟩ := l
  rw [all, allOf_eq_flatMap]

theorem map_link_places (source : AliasedName) (l : Link) :
    ((l.places source).filterMap Place.link?).map Prod.snd = l.all := by
  induction l using nested_induction generalizing source with
  | step l ih =>
    rw [places_eq, all_eq, List.filterMap_cons_some (f := Place.link?) rfl, List.map_cons, List.filterMap_flatMap,
      List.map_flatMap]
    exact congrArg _ (List.flatMap_congr fun m hm => ih m hm l.table)

theorem exposed_table {l : Link} (h : l.aliasName ≠ some "") :
    l.table.exposed = l.aliasName.getD l.name := by
  cases ha : l.aliasName with
  | none =>
    by_cases hn : l.name = "" <;> simp [table, firstSet, AliasedName.exposed, AliasedName.hasAlias, ha, hn]
  | some a =>
    have hne : a ≠ "" := fun he => h (ha.trans (congrArg some he))
    simp [table, firstSet, AliasedName.exposed, AliasedName.hasAlias, ha, hne]

/-- Links are known under their aliases and, where they have none, under their names. -/
theorem perm_aliases_names (ls : List Link) : (ls.map fun l => l.aliasName.getD l.name).Perm
    (ls.filterMap (·.aliasName) ++ (ls.filter (·.aliasName.isNone)).map (·.name)) := by
  induction ls with
  | nil => exact .nil
  | cons l ls ih =>
    cases ha : l.aliasName with
    | none =>
      rw [List.map_cons, List.filterMap_cons_none ha, List.filter_cons_of_pos (by simp [ha]), List.map_cons, ha]
      exact (ih.cons l.name).trans List.perm_middle.symm
    | some a =>
      rw [List.map_cons, List.filterMap_cons_some ha, List.filter_cons_of_neg (by simp [ha]), ha]
      exact ih.cons a

end Link

namespace Entity

def allLinks (e : Entity) : List Link := e.links.flatMap Link.all

def names (e : Entity) : List String := e.name :: e.allLinks.map (·.name)

def aliases (e : Entity) : List String := e.allLinks.filterMap (·.aliasName)

/-- The names that no alias replaces: that of the entity and those of the links without an alias. -/
def plainNames (e : Entity) : List String := e.name :: (e.allLinks.filter (·.aliasName.isNone)).map (·.name)

def tables (o : StatementOptions) (e : Entity) : List AliasedName := e.source o :: e.allLinks.map Link.table

theorem map_link_places (o : StatementOptions) (e : Entity) :
    ((e.places o).filterMap Place.link?).map Prod.snd = e.allLinks := by
  rw [places_eq, List.filterMap_cons_none rfl, List.filterMap_flatMap, List.map_flatMap]
  exact List.flatMap_congr fun l _ => l.map_link_places _

theorem plainNames_subset_names (e : Entity) : e.plainNames ⊆ e.names :=
  List.cons_subset_cons e.name (List.map_subset _ (List.filter_subset_self _))

/-- The tables of an entity go by the aliases of its links and by the names that no alias replaces. -/
theorem perm_exposed_tables {o : StatementOptions} {e : Entity} (h : "" ∉ e.aliases) :
    ((e.tables o).map AliasedName.exposed).Perm (e.aliases ++ e.plainNames) := by
  have hexposed : ∀ l ∈ e.allLinks, (AliasedName.exposed ∘ Link.table) l = l.aliasName.getD l.name :=
    fun l hl => Link.exposed_table fun ha => h (List.mem_filterMap.2 ⟨l, hl, ha⟩)
  rw [tables, List.map_cons, exposed_source, List.map_map, List.map_congr_left hexposed]
  exact ((Link.perm_aliases_names e.allLinks).cons e.name).trans List.perm_middle.symm

end Entity

theorem perm_joins_select {d : Document} {o : StatementOptions} {e : Entity} {s : Select}
    (h : d.select o e = .ok s) : ∃ joins, s.joins.Perm joins ∧
      List.Forall₂ (fun l j => Link.IsJoin l.1 l.2 j) ((e.places o).filterMap Place.link?) joins := by
  obtain ⟨-, joins, hj, hjoins⟩ := joins_select h
  refine ⟨joins, ?_, hj⟩
  rw [hjoins]
  split
  · exact List.mergeSort_perm joins _
  · exact .refl joins

theorem perm_tables_select {d : Document} {o : StatementOptions} {e : Entity} {s : Select}
    (h : d.select o e = .ok s) : s.tables.Perm (e.tables o) := by
  obtain ⟨joins, hperm, hj⟩ := perm_joins_select h
  have htargets : joins.map (·.target) = e.allLinks.map Link.table := by
    rw [← Entity.map_link_places o, List.map_map]
    exact map_target_of_forall₂ id hj
  rw [Select.tables, (joins_select h).1, Entity.tables, ← htargets]
  exact (hperm.map _).cons _

/-- Where aliases are set, differ from each other and from all names, the tables of a statement go by different
names exactly when no two names that no alias replaces are the same. Then the name of each table is the name of
that table alone. -/
theorem select_exposed_nodup_iff (d : Document) (o : StatementOptions) (e : Entity) (s : Select)
    (hset : "" ∉ e.aliases) (hdistinct : e.aliases.Nodup) (hnames : ∀ a ∈ e.aliases, a ∉ e.names)
    (h : d.select o e = .ok s) :
    ((s.tables.map AliasedName.exposed).Nodup ↔ e.plainNames.Nodup) ∧
      (e.plainNames.Nodup → ∀ t ∈ e.tables o, s.tables.filter (·.exposed = t.exposed) = [t]) := by
  have hperm := perm_tables_select h
  have hplain : e.aliases.Disjoint e.plainNames :=
    fun a ha hp => hnames a ha (e.plainNames_subset_names hp)
  have hnodup : (s.tables.map AliasedName.exposed).Nodup ↔ e.plainNames.Nodup := by
    rw [((hperm.map _).trans (Entity.perm_exposed_tables hset)).nodup_iff, List.nodup_append']
    exact ⟨fun hn => hn.2.1, fun hn => ⟨hdistinct, hn, hplain⟩⟩
  refine ⟨hnodup, fun hn t ht => ?_⟩
  exact Statement.filter_eq_singleton (hnodup.2 hn) (hperm.mem_iff.2 ht)

def accountParents (parents : Option String) : Entity where
  name := "account"
  links :=
    [{ name := "contact"
       fromColumns := "parentid"
       toColumns := "accountid"
       links :=
         [{ name := "contact", aliasName := some "manager", fromColumns := "contactid", toColumns := "managerid" }] },
     { name := "account", aliasName := parents, fromColumns := "accountid", toColumns := "parentid" }]

theorem select_exposed_nodup_iff_parents :
    "" ∉ (accountParents (some "parent")).aliases ∧ (accountParents (some "parent")).aliases.Nodup ∧
    (∀ a ∈ (accountParents (some "parent")).aliases, a ∉ (accountParents (some "parent")).names) ∧
    ∃ s, ({} : Document).select {} (accountParents (some "parent")) = .ok s ∧
      (s.tables.map AliasedName.exposed).Nodup ∧
      s.tables.filter (·.exposed = "parent") = [⟨"account", "parent"⟩] := by
  have hset : "" ∉ (accountParents (some "parent")).aliases := by decide
  have hdistinct : (accountParents (some "parent")).aliases.Nodup := by decide
  have hnames : ∀ a ∈ (accountParents (some "parent")).aliases, a ∉ (accountParents (some "parent")).names := by
    decide
  have hplain : (accountParents (some "parent")).plainNames.Nodup := by decide
  obtain ⟨hiff, htable⟩ := select_exposed_nodup_iff {} {} (accountParents (some "parent")) _ hset hdistinct hnames rfl
  exact ⟨hset, hdistinct, hnames, _, rfl, hiff.2 hplain, htable hplain ⟨"account", "parent"⟩ (by decide)⟩

theorem select_exposed_not_nodup :
    "" ∉ (accountParents none).names ∧ "" ∉ (accountParents none).aliases ∧ (accountParents none).aliases.Nodup ∧
    (∀ a ∈ (accountParents none).aliases, a ∉ (accountParents none).names) ∧
    ∃ s, ({} : Document).select {} (accountParents none) = .ok s ∧
      ¬ (s.tables.map AliasedName.exposed).Nodup := by
  exact ⟨by decide, by decide, by decide, by decide, _, rfl, by decide⟩

end FetchQuery.Document
