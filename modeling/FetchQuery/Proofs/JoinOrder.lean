import FetchQuery.Proofs.Contents
import Mathlib.Data.List.Nodup

namespace FetchQuery.Statement

/-- Every join is made to a known table or to the table of a join that stands before it. -/
def Introduced (known : List String) (joins : List Join) : Prop :=
  ∀ before j after, joins = before ++ j :: after →
    j.source.exposed ∈ known ∨ ∃ i ∈ before, i.target.exposed = j.source.exposed

namespace Introduced

variable {known : List String} {joins : List Join}

theorem nil : Introduced known [] := by
  intro before j after h
  simp at h

theorem cons {j : Join} (hj : j.source.exposed ∈ known)
    (h : Introduced (j.target.exposed :: known) joins) : Introduced known (j :: joins) := by
  intro before k after hk
  cases before with
  | nil =>
    obtain ⟨rfl, _⟩ := List.cons.inj hk
    exact .inl hj
  | cons i before =>
    obtain ⟨rfl, hrest⟩ := List.cons.inj hk
    rcases h before k after hrest with hm | ⟨i, hi, he⟩
    · rcases List.mem_cons.1 hm with hm | hm
      · exact .inr ⟨j, List.mem_cons_self, hm.symm⟩
      · exact .inl hm
    · exact .inr ⟨i, List.mem_cons_of_mem j hi, he⟩

theorem append {joins' : List Join} (h : Introduced known joins) (h' : Introduced known joins') :
    Introduced known (joins ++ joins') := by
  intro before j after hj
  rcases List.append_eq_append_iff.1 hj with ⟨middle, rfl, hrest⟩ | ⟨middle, rfl, hrest⟩
  · rcases h' middle j after hrest with hm | ⟨i, hi, he⟩
    · exact .inl hm
    · exact .inr ⟨i, List.mem_append_right joins hi, he⟩
  · cases middle with
    | nil =>
      rcases h' [] j after hrest.symm with hm | ⟨i, hi, _⟩
      · exact .inl hm
      · cases hi
    | cons k middle =>
      obtain ⟨rfl, _⟩ := List.cons.inj hrest
      exact h before j middle rfl

end Introduced

theorem mem_of_pair_sublist {α : Type} {a b : α} {before after : List α}
    (hn : (before ++ b :: after).Nodup)
    (h : [a, b].Sublist (before ++ b :: after)) : a ∈ before := by
  obtain ⟨front, back, he, hfront, hback⟩ := List.sublist_append_iff.1 h
  cases front with
  | nil =>
    have hb : b ∈ after := by
      rw [List.nil_append] at he
      have ht := hback.tail
      rw [← he] at ht
      exact List.singleton_sublist.1 ht
    exact absurd hb (List.nodup_cons.1 (List.nodup_append.1 hn).2.1).1
  | cons c front =>
    obtain ⟨rfl, _⟩ := List.cons.inj he
    exact hfront.subset List.mem_cons_self

theorem pairwise_normalizeJoins (joins : List Join) :
    (normalizeJoins joins).Pairwise fun i j => i.kind.rank ≤ j.kind.rank := by
  have h : (normalizeJoins joins).Pairwise fun i j => decide (i.kind.rank ≤ j.kind.rank) = true := by
    apply List.pairwise_mergeSort
    · simp only [decide_eq_true_eq]
      omega
    · simp only [Bool.or_eq_true, decide_eq_true_eq]
      omega
  exact h.imp of_decide_eq_true

theorem pair_sublist_normalizeJoins {i j : Join} {joins : List Join} (hr : i.kind.rank ≤ j.kind.rank)
    (h : [i, j].Sublist joins) : [i, j].Sublist (normalizeJoins joins) := by
  apply List.pair_sublist_mergeSort _ _ _ h
  · simp only [decide_eq_true_eq]
    omega
  · simp only [Bool.or_eq_true, decide_eq_true_eq]
    omega
  · exact decide_eq_true hr

/-- Sorting by kind keeps the joins in an order in which they can be made exactly when no join is of an
earlier kind than the one that introduces its source. -/
theorem introduced_normalizeJoins_iff {root : String} {joins : List Join} (h : Introduced [root] joins)
    (hn : (root :: joins.map fun j => j.target.exposed).Nodup) :
    Introduced [root] (normalizeJoins joins) ↔
      ∀ i ∈ joins, ∀ j ∈ joins, i.target.exposed = j.source.exposed → i.kind.rank ≤ j.kind.rank := by
  obtain ⟨hroot, htargets⟩ := List.nodup_cons.1 hn
  have hperm : (normalizeJoins joins).Perm joins := List.mergeSort_perm joins _
  constructor
  · intro hs i hi j hj he
    obtain ⟨before, after, hsplit⟩ := List.append_of_mem (hperm.mem_iff.2 hj)
    rcases hs before j after hsplit with hm | ⟨k, hk, hke⟩
    · rw [List.mem_singleton, ← he] at hm
      exact absurd (List.mem_map.2 ⟨i, hi, hm⟩) hroot
    · -- targets are distinct, so the one that introduces the source of `j` is `i`
      have hkm : k ∈ joins := hperm.mem_iff.1 (by rw [hsplit]; exact List.mem_append_left _ hk)
      have hki : k = i := List.inj_on_of_nodup_map htargets hkm hi (hke.trans he.symm)
      have hp := pairwise_normalizeJoins joins
      rw [hsplit, List.pairwise_append] at hp
      exact hp.2.2 i (hki ▸ hk) j List.mem_cons_self
  · intro hr before j after hsplit
    have hj : j ∈ joins := hperm.mem_iff.1 (by rw [hsplit]; simp)
    obtain ⟨front, back, rfl⟩ := List.append_of_mem hj
    rcases h front j back rfl with hm | ⟨i, hi, he⟩
    · exact .inl hm
    · have hp : [i, j].Sublist (front ++ j :: back) :=
        (List.singleton_sublist.2 hi).append (List.singleton_sublist.2 List.mem_cons_self)
      have hs := pair_sublist_normalizeJoins (hr i (List.mem_append_left _ hi) j hj he) hp
      have hd := hperm.nodup_iff.2 (List.Nodup.of_map _ htargets)
      rw [hsplit] at hs hd
      exact .inr ⟨i, mem_of_pair_sublist hd hs, he⟩

end FetchQuery.Statement

namespace FetchQuery.Document

open Statement (AliasedName Join Select Introduced normalizeJoins)

namespace Link

mutual

theorem nested_induction {P : Link → Prop} (step : ∀ l, (∀ m ∈ l.links, P m) → P l) (l : Link) :
    P l := by
  match l with
  | ⟨_, _, _, _, _, _, links⟩ => exact step _ (nested_induction_all step links)

theorem nested_induction_all {P : Link → Prop} (step : ∀ l, (∀ m ∈ l.links, P m) → P l)
    (ls : List Link) : ∀ m ∈ ls, P m := by
  match ls with
  | [] => exact nofun
  | l :: ls =>
    rw [List.forall_mem_cons]
    exact ⟨nested_induction step l, nested_induction_all step ls⟩

end

theorem placesOfAll_eq_flatMap (source : AliasedName) (ls : List Link) :
    placesOfAll source ls = ls.flatMap (places source) := by
  induction ls with
  | nil => rfl
  | cons l ls ih => rw [placesOfAll, ih, List.flatMap_cons]

theorem places_eq (source : AliasedName) (l : Link) :
    l.places source = .linked source l :: l.links.flatMap (places l.table) := by
  match l with
  | ⟨_, _, _, _, _, _, links⟩ => rw [places, placesOfAll_eq_flatMap]

theorem mem_places_of_mem_links {source around : AliasedName} {l k m : Link}
    (hl : .linked around l ∈ k.places source) (hm : m ∈ l.links) :
    .linked l.table m ∈ k.places source := by
  induction k using nested_induction generalizing source with
  | step k ih =>
    rw [places_eq, List.mem_cons] at hl ⊢
    right
    rw [List.mem_flatMap] at hl ⊢
    rcases hl with hl | ⟨n, hn, hl⟩
    · obtain ⟨_, rfl⟩ := Place.linked.inj hl
      exact ⟨m, hm, by rw [places_eq]; exact List.mem_cons_self⟩
    · exact ⟨n, hn, ih n hn hl⟩

theorem around_of_mem_places {source around : AliasedName} {k m : Link}
    (h : .linked around m ∈ k.places source) : (around = source ∧ m = k) ∨
      ∃ source' l, .linked source' l ∈ k.places source ∧ m ∈ l.links ∧ around = l.table := by
  induction k using nested_induction generalizing source with
  | step k ih =>
    rw [places_eq] at h ⊢
    rcases List.mem_cons.1 h with h | h
    · obtain ⟨rfl, rfl⟩ := Place.linked.inj h
      exact .inl ⟨rfl, rfl⟩
    · obtain ⟨n, hn, h⟩ := List.mem_flatMap.1 h
      rcases ih n hn h with ⟨rfl, rfl⟩ | ⟨source', l, hl, hm, rfl⟩
      · exact .inr ⟨source, k, List.mem_cons_self, hn, rfl⟩
      · exact .inr ⟨source', l, List.mem_cons_of_mem _ (List.mem_flatMap.2 ⟨n, hn, hl⟩), hm, rfl⟩

theorem introduced_flatMap {source : AliasedName} {known : List String} {ls : List Link}
    (hl : ∀ l ∈ ls, ∀ joins, List.Forall₂ (fun l j => IsJoin l.1 l.2 j)
      ((l.places source).filterMap Place.link?) joins → Introduced known joins) (joins : List Join)
    (h : List.Forall₂ (fun l j => IsJoin l.1 l.2 j)
      ((ls.flatMap (places source)).filterMap Place.link?) joins) : Introduced known joins := by
  induction ls generalizing joins with
  | nil =>
    obtain rfl := List.forall₂_nil_left_iff.1 h
    exact .nil
  | cons l ls ih =>
    rw [List.flatMap_cons, List.filterMap_append] at h
    rw [List.forall_mem_cons] at hl
    -- the joins of the first link come first, and there are as many of them as it has places
    have hfirst := List.forall₂_take ((l.places source).filterMap Place.link?).length h
    have hrest := List.forall₂_drop ((l.places source).filterMap Place.link?).length h
    rw [List.take_left] at hfirst
    rw [List.drop_left] at hrest
    rw [← List.take_append_drop ((l.places source).filterMap Place.link?).length joins]
    exact (hl.1 _ hfirst).append (ih hl.2 _ hrest)

theorem introduced_places (k : Link) {source : AliasedName} {known : List String}
    (hs : source.exposed ∈ known) (joins : List Join)
    (h : List.Forall₂ (fun l j => IsJoin l.1 l.2 j) ((k.places source).filterMap Place.link?) joins) :
    Introduced known joins := by
  induction k using nested_induction generalizing source known joins with
  | step k ih =>
    rw [places_eq, List.filterMap_cons_some (f := Place.link?) rfl, List.forall₂_cons_left_iff] at h
    obtain ⟨j, rest, hj, hrest, rfl⟩ := h
    have hsource : j.source.exposed ∈ known := hj.source ▸ hs
    have htarget : k.table.exposed ∈ j.target.exposed :: known := hj.target ▸ List.mem_cons_self
    exact .cons hsource (introduced_flatMap (fun l hl joins => ih l hl htarget joins) rest hrest)

def rank (l : Link) : Nat :=
  match joinKind (l.linkType.getD "inner") with
  | .ok kind => kind.rank
  | .error _ => 0

theorem IsJoin.rank_eq {source : AliasedName} {l : Link} {j : Join} (h : l.IsJoin source j) :
    l.rank = j.kind.rank := by
  rw [rank, h.kind]

end Link

namespace Entity

def tableNames (o : StatementOptions) (e : Entity) : List String :=
  e.name :: ((e.places o).filterMap Place.link?).map fun l => l.2.table.exposed

/-- No link stands inside a link whose kind comes later. -/
def RanksAscend (o : StatementOptions) (e : Entity) : Prop :=
  ∀ source l, .linked source l ∈ e.places o → ∀ m ∈ l.links, l.rank ≤ m.rank

theorem places_eq (o : StatementOptions) (e : Entity) :
    e.places o = .root (e.source o) e.scope :: e.links.flatMap (Link.places (e.source o)) := by
  rw [places, Link.placesOfAll_eq_flatMap]
  rfl

theorem exposed_source (o : StatementOptions) (e : Entity) : (e.source o).exposed = e.name := by
  unfold source AliasedName.exposed AliasedName.hasAlias
  cases o.aliasRoot <;> simp

theorem mem_links_iff {o : StatementOptions} {e : Entity} {source : AliasedName} {l : Link} :
    (source, l) ∈ (e.places o).filterMap Place.link? ↔ .linked source l ∈ e.places o := by
  rw [List.mem_filterMap]
  constructor
  · rintro ⟨p, hp, hl⟩
    cases p with
    | root table scope => cases hl
    | linked source' l' =>
      obtain ⟨rfl, rfl⟩ := Prod.mk.inj (Option.some.inj hl)
      exact hp
  · exact fun h => ⟨_, h, rfl⟩

/-- Under distinct names, a link that is made to the table of another stands inside it. -/
theorem mem_links_of_exposed {o : StatementOptions} {e : Entity} (hn : (e.tableNames o).Nodup)
    {source around : AliasedName} {l m : Link} (hl : .linked source l ∈ e.places o)
    (hm : .linked around m ∈ e.places o) (he : l.table.exposed = around.exposed) : m ∈ l.links := by
  obtain ⟨hroot, hlinks⟩ := List.nodup_cons.1 hn
  have hin : .linked around m ∈ e.links.flatMap (Link.places (e.source o)) := by
    rw [places_eq, List.mem_cons] at hm
    exact hm.resolve_left nofun
  obtain ⟨k, hk, hmk⟩ := List.mem_flatMap.1 hin
  rcases Link.around_of_mem_places hmk with ⟨rfl, rfl⟩ | ⟨source', l', hl', hm', rfl⟩
  · rw [exposed_source] at he
    exact absurd (List.mem_map.2 ⟨_, mem_links_iff.2 hl, he⟩) hroot
  · have hl'' : .linked source' l' ∈ e.places o := by
      rw [places_eq]
      exact List.mem_cons_of_mem _ (List.mem_flatMap.2 ⟨k, hk, hl'⟩)
    have hsame : (source', l') = (source, l) :=
      List.inj_on_of_nodup_map hlinks (mem_links_iff.2 hl'') (mem_links_iff.2 hl) he.symm
    obtain ⟨_, rfl⟩ := Prod.mk.inj hsame
    exact hm'

theorem linked_of_mem_links {o : StatementOptions} {e : Entity} {source : AliasedName} {l m : Link}
    (hl : .linked source l ∈ e.places o) (hm : m ∈ l.links) : .linked l.table m ∈ e.places o := by
  rw [places_eq, List.mem_cons] at hl ⊢
  obtain ⟨k, hk, hl⟩ := List.mem_flatMap.1 (hl.resolve_left nofun)
  exact .inr (List.mem_flatMap.2 ⟨k, hk, Link.mem_places_of_mem_links hl hm⟩)

end Entity

theorem joins_select {d : Document} {o : StatementOptions} {e : Entity} {s : Select}
    (h : d.select o e = .ok s) : s.source = e.source o ∧ ∃ joins,
      List.Forall₂ (fun l j => Link.IsJoin l.1 l.2 j) ((e.places o).filterMap Place.link?) joins ∧
        s.joins = if o.normalizeJoins then normalizeJoins joins else joins := by
  obtain ⟨parts, hp, rfl⟩ := select_eq_ok.1 h
  rw [Select.ofClauses_eq]
  refine ⟨rfl, parts.flatten.filterMap Statement.Clause.join?, Place.forall₂_isJoin hp, ?_⟩
  simp [headClauses, List.filterMap_cons, Function.comp_def, Statement.Clause.join?]

theorem introduced_of_forall₂ {o : StatementOptions} {e : Entity} {joins : List Join}
    (h : List.Forall₂ (fun l j => Link.IsJoin l.1 l.2 j) ((e.places o).filterMap Place.link?) joins) :
    Introduced [e.name] joins := by
  rw [Entity.places_eq, List.filterMap_cons_none rfl] at h
  refine Link.introduced_flatMap (fun l _ joins hl => ?_) joins h
  exact l.introduced_places (List.mem_singleton.2 (e.exposed_source o)) joins hl

theorem map_target_of_forall₂ {β : Type} (f : AliasedName → β) {links : List (AliasedName × Link)} {joins : List Join}
    (h : List.Forall₂ (fun l j => Link.IsJoin l.1 l.2 j) links joins) :
    joins.map (fun j => f j.target) = links.map fun l => f l.2.table := by
  induction h with
  | nil => rfl
  | cons hl _ ih => rw [List.map_cons, List.map_cons, ih, hl.target]

theorem ranksAscend_iff {o : StatementOptions} {e : Entity} {joins : List Join}
    (hn : (e.tableNames o).Nodup)
    (h : List.Forall₂ (fun l j => Link.IsJoin l.1 l.2 j) ((e.places o).filterMap Place.link?) joins) :
    e.RanksAscend o ↔
      ∀ i ∈ joins, ∀ j ∈ joins, i.target.exposed = j.source.exposed → i.kind.rank ≤ j.kind.rank := by
  obtain ⟨hjoin, hlink⟩ := Fallible.exists_of_forall₂ h
  constructor
  · intro hr i hi j hj he
    obtain ⟨⟨source, l⟩, hl, hil⟩ := hlink i hi
    obtain ⟨⟨around, m⟩, hm, hjm⟩ := hlink j hj
    rw [hil.target, hjm.source] at he
    rw [Entity.mem_links_iff] at hl hm
    rw [← hil.rank_eq, ← hjm.rank_eq]
    exact hr source l hl m (Entity.mem_links_of_exposed hn hl hm he)
  · intro hr source l hl m hm
    obtain ⟨i, hi, hil⟩ := hjoin _ (Entity.mem_links_iff.2 hl)
    obtain ⟨j, hj, hjm⟩ := hjoin _ (Entity.mem_links_iff.2 (Entity.linked_of_mem_links hl hm))
    rw [hil.rank_eq, hjm.rank_eq]
    apply hr i hi j hj
    rw [hil.target, hjm.source]

theorem introduced_normalizeJoins_of_forall₂ {o : StatementOptions} {e : Entity} {joins : List Join}
    (hn : (e.tableNames o).Nodup)
    (h : List.Forall₂ (fun l j => Link.IsJoin l.1 l.2 j) ((e.places o).filterMap Place.link?) joins) :
    Introduced [e.name] (normalizeJoins joins) ↔ e.RanksAscend o := by
  have hnames : (e.name :: joins.map fun j => j.target.exposed).Nodup := by
    rw [map_target_of_forall₂ AliasedName.exposed h]
    exact hn
  rw [Statement.introduced_normalizeJoins_iff (introduced_of_forall₂ h) hnames, ← ranksAscend_iff hn h]

/-- The joins of a statement can be made in their order, unless they are sorted by kind and some link
stands inside a link whose kind comes later. -/
theorem select_introduced_iff (d : Document) (o : StatementOptions) (e : Entity) (s : Select)
    (hn : (e.tableNames o).Nodup) (h : d.select o e = .ok s) :
    Introduced [s.source.exposed] s.joins ↔ (o.normalizeJoins = true → e.RanksAscend o) := by
  obtain ⟨hsource, joins, hj, hjoins⟩ := joins_select h
  rw [hsource, e.exposed_source o, hjoins]
  cases o.normalizeJoins with
  | false => simpa using introduced_of_forall₂ hj
  | true => simpa using introduced_normalizeJoins_of_forall₂ hn hj

def accountTasks (contacts tasks : String) : Entity where
  name := "account"
  links :=
    [{ name := "contact"
       aliasName := some "c"
       linkType := some contacts
       fromColumns := "parentid"
       toColumns := "accountid"
       links :=
         [{ name := "task", linkType := some tasks, fromColumns := "regarding", toColumns := "contactid" }] }]

theorem select_introduced_iff_tasks :
    ((accountTasks "left" "right").tableNames { normalizeJoins := true }).Nodup ∧
    ∃ s, ({} : Document).select { normalizeJoins := true } (accountTasks "left" "right") = .ok s ∧
      Introduced [s.source.exposed] s.joins := by
  have hn : ((accountTasks "left" "right").tableNames { normalizeJoins := true }).Nodup := by decide
  refine ⟨hn, _, rfl, ?_⟩
  rw [select_introduced_iff {} { normalizeJoins := true } (accountTasks "left" "right") _ hn rfl]
  intro _ source l hl
  simp only [accountTasks, Entity.places, Link.placesOfAll, Link.places, List.mem_cons, List.append_nil,
    List.not_mem_nil, or_false, reduceCtorEq, false_or, Place.linked.injEq] at hl
  rcases hl with ⟨_, rfl⟩ | ⟨_, rfl⟩ <;> decide

/-- Inner joins come first, so the tasks are joined to contacts that are only joined after them. -/
theorem select_not_introduced :
    ((accountTasks "left" "inner").tableNames { normalizeJoins := true }).Nodup ∧
    "" ∉ (accountTasks "left" "inner").tableNames { normalizeJoins := true } ∧
    ∃ s, ({} : Document).select { normalizeJoins := true } (accountTasks "left" "inner") = .ok s ∧
      ¬ Introduced [s.source.exposed] s.joins := by
  have hn : ((accountTasks "left" "inner").tableNames { normalizeJoins := true }).Nodup := by decide
  have h : ∃ s,
      ({} : Document).select { normalizeJoins := true } (accountTasks "left" "inner") = .ok s :=
    ⟨_, rfl⟩
  obtain ⟨s, h⟩ := h
  refine ⟨hn, by decide, s, h, ?_⟩
  obtain ⟨hsource, joins, hj, hjoins⟩ := joins_select h
  rw [hsource, Entity.exposed_source, hjoins, if_pos rfl, introduced_normalizeJoins_of_forall₂ hn hj]
  intro hr
  have hrank := hr _ _ (List.mem_cons_of_mem _ List.mem_cons_self) _ List.mem_cons_self
  exact absurd hrank (by decide)

end FetchQuery.Document
