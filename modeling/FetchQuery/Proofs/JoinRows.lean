import FetchQuery.Statement.Basic
import Mathlib.Data.List.Nodup
import Mathlib.Data.Multiset.Bind

namespace FetchQuery.Statement

abbrev TableRow (V : Type) := String → Option V

/-- Rows of several tables side by side, by the names under which the tables are known. A table without a row is
null in all columns. -/
abbrev JoinedRow (V : Type) := String → Option (TableRow V)

/-- The rows of each table, by its own name. -/
abbrev Database (V : Type) := String → Multiset (TableRow V)

variable {V : Type}

def AliasedName.alone (n : AliasedName) (t : TableRow V) : JoinedRow V :=
  Function.update (fun _ => none) n.exposed (some t)

namespace JoinKind

/-- Whether rows on the left stay without a partner. -/
def keepsLeft : JoinKind → Bool
  | left | outer => true
  | inner | right => false

def keepsRight : JoinKind → Bool
  | right | outer => true
  | inner | left => false

end JoinKind

namespace Join

/-- All key equalities hold. An equality with a null side does not. -/
def Holds (j : Join) (r : JoinedRow V) (t : TableRow V) : Prop :=
  ∀ k ∈ j.keys, (r j.source.exposed).bind (· k.source) ≠ none ∧
    (r j.source.exposed).bind (· k.source) = t k.target

instance [DecidableEq V] (j : Join) (r : JoinedRow V) (t : TableRow V) : Decidable (j.Holds r t) :=
  inferInstanceAs (Decidable (∀ k ∈ j.keys, _ ∧ _))

section

variable [DecidableEq V] (db : Database V) (j : Join) (left : Multiset (JoinedRow V))

/-- The rows on the left, each with every partner that it has. -/
def matched : Multiset (JoinedRow V) :=
  left.bind fun r => ((db j.target.name).filter (j.Holds r)).map fun t =>
    Function.update r j.target.exposed (some t)

def leftOver : Multiset (JoinedRow V) :=
  left.filter fun r => ∀ t ∈ db j.target.name, ¬ j.Holds r t

/-- The rows of the joined table that are no partner, on their own. -/
def rightOver : Multiset (JoinedRow V) :=
  ((db j.target.name).filter fun t => ∀ r ∈ left, ¬ j.Holds r t).map j.target.alone

def rows : Multiset (JoinedRow V) :=
  match j.kind with
  | .inner => j.matched db left
  | .left => j.matched db left + j.leftOver db left
  | .right => j.matched db left + j.rightOver db left
  | .outer => j.matched db left + j.leftOver db left + j.rightOver db left

theorem rows_eq : j.rows db left = j.matched db left +
    (if j.kind.keepsLeft then j.leftOver db left else 0) +
    (if j.kind.keepsRight then j.rightOver db left else 0) := by
  unfold rows
  cases j.kind <;> simp [JoinKind.keepsLeft, JoinKind.keepsRight]

end

end Join

def joinedRows [DecidableEq V] (db : Database V) (root : AliasedName) (joins : List Join) :
    Multiset (JoinedRow V) :=
  joins.foldl (fun left j => j.rows db left) ((db root.name).map root.alone)

namespace Join

/-- The row of the joined table is a partner of the row of the table that it is joined to. -/
def Fits (j : Join) (r t : TableRow V) : Prop := ∀ k ∈ j.keys, r k.source ≠ none ∧ r k.source = t k.target

instance [DecidableEq V] (j : Join) (r t : TableRow V) : Decidable (j.Fits r t) :=
  inferInstanceAs (Decidable (∀ k ∈ j.keys, _ ∧ _))

theorem holds_iff {j : Join} {x : JoinedRow V} {r : TableRow V} (h : x j.source.exposed = some r) (t : TableRow V) :
    j.Holds x t ↔ j.Fits r t := by
  rw [Holds, Fits, h]
  rfl

theorem not_holds {j : Join} (hk : j.keys ≠ []) {x : JoinedRow V} (h : x j.source.exposed = none) (t : TableRow V) :
    ¬ j.Holds x t := by
  obtain ⟨k, keys, hkeys⟩ := List.exists_cons_of_ne_nil hk
  intro hh
  have hkey := hh k (hkeys ▸ List.mem_cons_self)
  rw [h] at hkey
  exact hkey.1 rfl

section

variable (db : Database V)

def HasPartner (j : Join) (r : TableRow V) : Prop := ∃ t ∈ db j.target.name, j.Fits r t

instance [DecidableEq V] (j : Join) (r : TableRow V) : Decidable (j.HasPartner db r) :=
  Multiset.decidableExistsMultiset

def Keeps (j : Join) (r : TableRow V) : Prop := j.kind.keepsLeft = true ∨ j.HasPartner db r

instance [DecidableEq V] (j : Join) (r : TableRow V) : Decidable (j.Keeps db r) :=
  inferInstanceAs (Decidable (_ ∨ _))

variable [DecidableEq V]

/-- What a join puts beside a row of the root: each partner, or nothing if it keeps rows without one. -/
def choices (j : Join) (r : TableRow V) : Multiset (Option (TableRow V)) :=
  ((db j.target.name).filter (j.Fits r)).map some +
    if j.kind.keepsLeft = true ∧ ¬ j.HasPartner db r then {none} else 0

/-- The rows of the joined table that fit none of the given rows, on their own. -/
def strays (root : Multiset (TableRow V)) (j : Join) : Multiset (JoinedRow V) :=
  ((db j.target.name).filter fun t => ∀ r ∈ root, ¬ j.Fits r t).map j.target.alone

theorem exists_choice_iff {j : Join} {r : TableRow V} : (∃ c, c ∈ j.choices db r) ↔ j.Keeps db r := by
  simp only [choices, Multiset.mem_add, Multiset.mem_map, Multiset.mem_filter]
  constructor
  · rintro ⟨c, ⟨t, ht, _⟩ | hc⟩
    · exact .inr ⟨t, ht⟩
    · split at hc
      · exact .inl (And.left ‹_›)
      · cases hc
  · intro hk
    by_cases hp : j.HasPartner db r
    · obtain ⟨t, ht⟩ := hp
      exact ⟨some t, .inl ⟨t, ht, rfl⟩⟩
    · refine ⟨none, .inr ?_⟩
      rw [if_pos ⟨hk.resolve_right hp, hp⟩]
      exact Multiset.mem_singleton_self none

end

end Join

section

variable [DecidableEq V] (db : Database V)

/-- The joined row with all choices of the joins put beside the row of the root. -/
def combinations (r : TableRow V) : List Join → JoinedRow V → Multiset (JoinedRow V)
  | [], x => {x}
  | j :: joins, x =>
    (j.choices db r).bind fun c => combinations r joins (Function.update x j.target.exposed c)

theorem combinations_append (r : TableRow V) (joins joins' : List Join) (x : JoinedRow V) :
    combinations db r (joins ++ joins') x = (combinations db r joins x).bind (combinations db r joins') := by
  induction joins generalizing x with
  | nil => exact (Multiset.singleton_bind _ _).symm
  | cons j joins ih =>
    simp only [List.cons_append, combinations, ih, Multiset.bind_assoc]

theorem eq_of_mem_combinations {r : TableRow V} {joins : List Join} {x y : JoinedRow V}
    (hy : y ∈ combinations db r joins x) {table : String}
    (ht : table ∉ joins.map fun j => j.target.exposed) : y table = x table := by
  induction joins generalizing x with
  | nil => rw [Multiset.mem_singleton.1 hy]
  | cons j joins ih =>
    obtain ⟨c, _, hy⟩ := Multiset.mem_bind.1 hy
    rw [List.map_cons, List.mem_cons, not_or] at ht
    rw [ih hy ht.2, Function.update_of_ne ht.1]

theorem combinations_perm {r : TableRow V} {joins joins' : List Join} (h : joins.Perm joins')
    (hn : (joins.map fun j => j.target.exposed).Nodup) (x : JoinedRow V) :
    combinations db r joins x = combinations db r joins' x := by
  induction h generalizing x with
  | nil => rfl
  | cons j _ ih =>
    have hrest := (List.nodup_cons.1 hn).2
    exact Multiset.bind_congr fun c _ => ih hrest _
  | swap i j joins =>
    have hne : j.target.exposed ≠ i.target.exposed :=
      fun he => (List.nodup_cons.1 hn).1 (List.mem_cons.2 (.inl he))
    simp only [combinations]
    rw [Multiset.bind_bind]
    refine Multiset.bind_congr fun c _ => Multiset.bind_congr fun c' _ => ?_
    rw [Function.update_comm hne]
  | trans h₁ _ ih₁ ih₂ => rw [ih₁ hn, ih₂ ((h₁.map _).nodup_iff.1 hn)]

theorem exists_combination_iff {r : TableRow V} {joins : List Join} {x : JoinedRow V} :
    (∃ y, y ∈ combinations db r joins x) ↔
      ∀ j ∈ joins, j.Keeps db r := by
  induction joins generalizing x with
  | nil => exact ⟨fun _ => nofun, fun _ => ⟨x, Multiset.mem_singleton_self x⟩⟩
  | cons j joins ih =>
    rw [List.forall_mem_cons, ← Join.exists_choice_iff]
    constructor
    · rintro ⟨y, hy⟩
      obtain ⟨c, hc, hy⟩ := Multiset.mem_bind.1 hy
      exact ⟨⟨c, hc⟩, ih.1 ⟨y, hy⟩⟩
    · rintro ⟨⟨c, hc⟩, hrest⟩
      obtain ⟨y, hy⟩ := (ih (x := Function.update x j.target.exposed c)).2 hrest
      exact ⟨y, Multiset.mem_bind.2 ⟨c, hc, hy⟩⟩

def rootedRows (root : AliasedName) (joins : List Join) : Multiset (JoinedRow V) :=
  (db root.name).bind fun r => combinations db r joins (root.alone r)

def survivors (root : AliasedName) (joins : List Join) : Multiset (TableRow V) :=
  (db root.name).filter fun r => ∀ j ∈ joins, j.Keeps db r

/-- The joins whose rows without a partner stay to the end: no later join drops rows from the left. -/
def keeping : List Join → List Join
  | [] => []
  | j :: joins =>
    if j.kind.keepsRight = true ∧ ∀ i ∈ joins, i.kind.keepsLeft = true then j :: keeping joins else keeping joins

def rootlessRows (root : AliasedName) (joins : List Join) : Multiset (JoinedRow V) :=
  (keeping joins : Multiset Join).bind (Join.strays db (survivors db root joins))

end

theorem keeping_append (joins joins' : List Join) : keeping (joins ++ joins') =
    (if ∀ i ∈ joins', i.kind.keepsLeft = true then keeping joins else []) ++ keeping joins' := by
  induction joins with
  | nil => simp [keeping]
  | cons j joins ih =>
    rw [List.cons_append, keeping, keeping, ih]
    by_cases hleft : ∀ i ∈ joins', i.kind.keepsLeft = true
    · have hall : (∀ i ∈ joins ++ joins', i.kind.keepsLeft = true) ↔ ∀ i ∈ joins, i.kind.keepsLeft = true := by
        rw [List.forall_mem_append, and_iff_left hleft]
      simp only [hall, if_pos hleft]
      split <;> rfl
    · have hall : ¬ ∀ i ∈ joins ++ joins', i.kind.keepsLeft = true :=
        fun h => hleft (List.forall_mem_append.1 h).2
      rw [if_neg fun h => hall h.2, if_neg hleft, if_neg hleft]

theorem keeping_sublist (joins : List Join) : (keeping joins).Sublist joins := by
  induction joins with
  | nil => exact .slnil
  | cons j joins ih =>
    rw [keeping]
    split
    · exact ih.cons_cons j
    · exact ih.cons j

section

variable [DecidableEq V] {db : Database V} {root : AliasedName}

theorem combinations_singleton {r : TableRow V} {j : Join} {y : JoinedRow V} (hs : y j.source.exposed = some r)
    (ht : y j.target.exposed = none) : combinations db r [j] y =
      ((db j.target.name).filter (j.Holds y)).map (fun t => Function.update y j.target.exposed (some t)) +
        if j.kind.keepsLeft = true ∧ ∀ t ∈ db j.target.name, ¬ j.Holds y t then {y} else 0 := by
  have hpartner : (∀ t ∈ db j.target.name, ¬ j.Holds y t) ↔ ¬ j.HasPartner db r := by
    simp only [Join.HasPartner, Join.holds_iff hs, not_exists, not_and]
  have hfits : (db j.target.name).filter (j.Holds y) = (db j.target.name).filter (j.Fits r) :=
    Multiset.filter_congr fun t _ => Join.holds_iff hs t
  have hupdate : Function.update y j.target.exposed none = y := by
    rw [← ht, Function.update_eq_self]
  simp only [combinations, Join.choices, Multiset.bind_singleton, Multiset.map_add, Multiset.map_map, hpartner, hfits,
    Function.comp_def]
  congr 1
  split
  · rw [Multiset.map_singleton, hupdate]
  · rfl

end

/-- All joins are made to the root, each on some keys, and every table goes by a name of its own. -/
structure Star (root : AliasedName) (joins : List Join) : Prop where
  source : ∀ j ∈ joins, j.source.exposed = root.exposed
  keyed : ∀ j ∈ joins, j.keys ≠ []
  distinct : (root.exposed :: joins.map fun j => j.target.exposed).Nodup

namespace Star

variable {root : AliasedName} {joins joins' : List Join} {j : Join}

theorem perm (h : Star root joins) (hp : joins.Perm joins') : Star root joins' where
  source j hj := h.source j (hp.mem_iff.2 hj)
  keyed j hj := h.keyed j (hp.mem_iff.2 hj)
  distinct := ((hp.map _).cons _).nodup_iff.1 h.distinct

theorem init (h : Star root (joins ++ [j])) : Star root joins where
  source i hi := h.source i (List.mem_append_left _ hi)
  keyed i hi := h.keyed i (List.mem_append_left _ hi)
  distinct := by
    refine List.Nodup.sublist ?_ h.distinct
    rw [List.map_append]
    exact (List.sublist_append_left _ _).cons_cons _

theorem root_not_mem (h : Star root joins) : root.exposed ∉ joins.map fun j => j.target.exposed :=
  (List.nodup_cons.1 h.distinct).1

theorem last_not_mem (h : Star root (joins ++ [j])) :
    j.target.exposed ≠ root.exposed ∧ j.target.exposed ∉ joins.map fun j => j.target.exposed := by
  have hn := h.distinct
  rw [List.map_append, ← List.cons_append, List.nodup_append'] at hn
  have hnot := List.disjoint_singleton.1 hn.2.2
  exact ⟨fun he => hnot (he ▸ List.mem_cons_self), fun hm => hnot (List.mem_cons_of_mem _ hm)⟩

end Star

section

variable [DecidableEq V] {db : Database V} {root : AliasedName} {joins : List Join} {j : Join}

theorem of_mem_rootedRows (h : Star root joins) {y : JoinedRow V} (hy : y ∈ rootedRows db root joins) :
    ∃ r ∈ survivors db root joins, y root.exposed = some r := by
  obtain ⟨r, hr, hy⟩ := Multiset.mem_bind.1 hy
  refine ⟨r, Multiset.mem_filter.2 ⟨hr, (exists_combination_iff db).1 ⟨y, hy⟩⟩, ?_⟩
  rw [eq_of_mem_combinations db hy h.root_not_mem, AliasedName.alone, Function.update_self]

theorem exists_mem_rootedRows (h : Star root joins) {r : TableRow V} (hr : r ∈ survivors db root joins) :
    ∃ y ∈ rootedRows db root joins, y root.exposed = some r := by
  obtain ⟨hr, hk⟩ := Multiset.mem_filter.1 hr
  obtain ⟨y, hy⟩ := (exists_combination_iff db (x := root.alone r)).2 hk
  refine ⟨y, Multiset.mem_bind.2 ⟨r, hr, hy⟩, ?_⟩
  rw [eq_of_mem_combinations db hy h.root_not_mem, AliasedName.alone, Function.update_self]

theorem of_mem_rootlessRows (h : Star root joins) {y : JoinedRow V} (hy : y ∈ rootlessRows db root joins) :
    y root.exposed = none := by
  obtain ⟨j, hj, hy⟩ := Multiset.mem_bind.1 hy
  obtain ⟨t, _, rfl⟩ := Multiset.mem_map.1 hy
  have hne : root.exposed ≠ j.target.exposed := by
    intro he
    exact h.root_not_mem (List.mem_map.2 ⟨j, (keeping_sublist joins).subset hj, he.symm⟩)
  rw [AliasedName.alone, Function.update_of_ne hne]

theorem rootedRows_append (h : Star root (joins ++ [j])) : rootedRows db root (joins ++ [j]) =
    j.matched db (rootedRows db root joins) +
      if j.kind.keepsLeft then j.leftOver db (rootedRows db root joins) else 0 := by
  obtain ⟨hroot, hlast⟩ := h.last_not_mem
  have hstep : ∀ r ∈ db root.name, ∀ y ∈ combinations db r joins (root.alone r), combinations db r [j] y =
      ((db j.target.name).filter (j.Holds y)).map (fun t => Function.update y j.target.exposed (some t)) +
        if j.kind.keepsLeft = true ∧ ∀ t ∈ db j.target.name, ¬ j.Holds y t then {y} else 0 := by
    intro r _ y hy
    apply combinations_singleton
    · rw [h.source j (List.mem_append_right _ List.mem_cons_self),
        eq_of_mem_combinations db hy h.init.root_not_mem, AliasedName.alone, Function.update_self]
    · rw [eq_of_mem_combinations db hy hlast, AliasedName.alone, Function.update_of_ne hroot]
  simp only [rootedRows, combinations_append]
  rw [Multiset.bind_congr fun r hr => Multiset.bind_congr (hstep r hr), ← Multiset.bind_assoc, Multiset.bind_add]
  congr 1
  cases j.kind.keepsLeft with
  | false => simp
  | true => simp [Join.leftOver, Multiset.filter_eq_bind]

theorem not_holds_rootlessRows (h : Star root (joins ++ [j])) :
    ∀ y ∈ rootlessRows db root joins, ∀ t, ¬ j.Holds y t := by
  intro y hy t
  apply Join.not_holds (h.keyed j (List.mem_append_right _ List.mem_cons_self))
  rw [h.source j (List.mem_append_right _ List.mem_cons_self)]
  exact of_mem_rootlessRows h.init hy

theorem matched_add_rootlessRows (h : Star root (joins ++ [j])) (left : Multiset (JoinedRow V)) :
    j.matched db (left + rootlessRows db root joins) = j.matched db left := by
  have hnone : j.matched db (rootlessRows db root joins) = 0 := by
    rw [Join.matched, ← Multiset.bind_zero (rootlessRows db root joins)]
    refine Multiset.bind_congr fun y hy => ?_
    rw [Multiset.filter_eq_nil.2 fun t _ => not_holds_rootlessRows h y hy t, Multiset.map_zero]
  rw [Join.matched, Multiset.add_bind]
  exact (congrArg _ hnone).trans (add_zero _)

theorem leftOver_add_rootlessRows (h : Star root (joins ++ [j])) (left : Multiset (JoinedRow V)) :
    j.leftOver db (left + rootlessRows db root joins) = j.leftOver db left + rootlessRows db root joins := by
  have hall : j.leftOver db (rootlessRows db root joins) = rootlessRows db root joins :=
    Multiset.filter_eq_self.2 fun y hy t _ => not_holds_rootlessRows h y hy t
  rw [Join.leftOver, Multiset.filter_add]
  exact congrArg _ hall

theorem rightOver_rows (h : Star root (joins ++ [j])) :
    j.rightOver db (rootedRows db root joins + rootlessRows db root joins) =
      j.strays db (survivors db root joins) := by
  have hsource := h.source j (List.mem_append_right _ List.mem_cons_self)
  have hfits (t : TableRow V) : (∀ y ∈ rootedRows db root joins + rootlessRows db root joins, ¬ j.Holds y t) ↔
      ∀ r ∈ survivors db root joins, ¬ j.Fits r t := by
    constructor
    · intro hy r hr hf
      obtain ⟨y, hm, hyr⟩ := exists_mem_rootedRows h.init hr
      exact hy y (Multiset.mem_add.2 (.inl hm)) ((Join.holds_iff (hsource ▸ hyr) t).2 hf)
    · intro hr y hy hh
      rcases Multiset.mem_add.1 hy with hy | hy
      · obtain ⟨r, hm, hyr⟩ := of_mem_rootedRows h.init hy
        exact hr r hm ((Join.holds_iff (hsource ▸ hyr) t).1 hh)
      · exact not_holds_rootlessRows h y hy t hh
  rw [Join.rightOver, Join.strays, Multiset.filter_congr fun t _ => hfits t]

/-- A partner of a row makes the join keep that row, so it makes no difference to the strays of a join whether
the join has dropped its rows. -/
theorem strays_survivors_append : j.strays db (survivors db root (joins ++ [j])) =
    j.strays db (survivors db root joins) := by
  have hfits (t : TableRow V) (ht : t ∈ db j.target.name) : (∀ r ∈ survivors db root (joins ++ [j]), ¬ j.Fits r t) ↔
      ∀ r ∈ survivors db root joins, ¬ j.Fits r t := by
    constructor
    · intro hr r hm hf
      obtain ⟨hm, hk⟩ := Multiset.mem_filter.1 hm
      refine hr r (Multiset.mem_filter.2 ⟨hm, ?_⟩) hf
      rw [List.forall_mem_append, List.forall_mem_singleton]
      exact ⟨hk, .inr ⟨t, ht, hf⟩⟩
    · intro hr r hm
      obtain ⟨hm, hk⟩ := Multiset.mem_filter.1 hm
      exact hr r (Multiset.mem_filter.2 ⟨hm, (List.forall_mem_append.1 hk).1⟩)
  rw [Join.strays, Join.strays, Multiset.filter_congr hfits]

theorem survivors_append (hl : j.kind.keepsLeft = true) :
    survivors db root (joins ++ [j]) = survivors db root joins := by
  refine Multiset.filter_congr fun r _ => ?_
  rw [List.forall_mem_append, List.forall_mem_singleton]
  exact and_iff_left (.inl hl)

theorem rootlessRows_append : rootlessRows db root (joins ++ [j]) =
    (if j.kind.keepsLeft then rootlessRows db root joins else 0) +
      if j.kind.keepsRight then j.strays db (survivors db root joins) else 0 := by
  have hlast : (keeping [j] : Multiset Join).bind (Join.strays db (survivors db root (joins ++ [j]))) =
      if j.kind.keepsRight then j.strays db (survivors db root joins) else 0 := by
    cases hr : j.kind.keepsRight with
    | false => simp [keeping, hr]
    | true => simp [keeping, hr, strays_survivors_append]
  rw [rootlessRows, keeping_append, ← Multiset.coe_add, Multiset.add_bind, hlast]
  congr 1
  cases hl : j.kind.keepsLeft with
  | false => simp [hl]
  | true => simp [hl, rootlessRows, survivors_append hl]

/-- The rows of joins to the root: those with a row of the root in them and those without one. -/
theorem joinedRows_eq (h : Star root joins) :
    joinedRows db root joins = rootedRows db root joins + rootlessRows db root joins := by
  induction joins using List.reverseRecOn with
  | nil => simp [joinedRows, rootedRows, rootlessRows, keeping, combinations, Multiset.bind_singleton]
  | append_singleton joins j ih =>
    have hfold : joinedRows db root (joins ++ [j]) = j.rows db (joinedRows db root joins) :=
      List.foldl_append
    rw [hfold, ih h.init, Join.rows_eq, matched_add_rootlessRows h, leftOver_add_rootlessRows h, rightOver_rows h,
      rootedRows_append h, rootlessRows_append]
    cases j.kind.keepsLeft <;> simp [add_assoc]

theorem rootedRows_perm {joins' : List Join} (h : Star root joins) (hp : joins.Perm joins') :
    rootedRows db root joins = rootedRows db root joins' :=
  Multiset.bind_congr fun r _ => combinations_perm db hp (List.nodup_cons.1 h.distinct).2 (root.alone r)

theorem survivors_perm {joins' : List Join} (hp : joins.Perm joins') :
    survivors db root joins = survivors db root joins' :=
  Multiset.filter_congr fun r _ => by simp only [hp.mem_iff]

end

end FetchQuery.Statement
