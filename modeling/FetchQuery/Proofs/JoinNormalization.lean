import FetchQuery.Proofs.JoinOrder
import FetchQuery.Proofs.JoinRows

namespace FetchQuery.Statement

def ofKind (kind : JoinKind) (joins : List Join) : List Join := joins.filter (·.kind = kind)

theorem kind_of_mem_ofKind {kind : JoinKind} {joins : List Join} {j : Join} (h : j ∈ ofKind kind joins) :
    j.kind = kind :=
  of_decide_eq_true (List.mem_filter.1 h).2

theorem ofKind_eq_nil {kind : JoinKind} {joins : List Join} (h : ∀ j ∈ joins, j.kind ≠ kind) :
    ofKind kind joins = [] := by
  rw [ofKind, List.filter_eq_nil_iff]
  exact fun j hj he => h j hj (of_decide_eq_true he)

theorem ofKind_normalizeJoins (kind : JoinKind) (joins : List Join) :
    ofKind kind (normalizeJoins joins) = ofKind kind joins := by
  have hsorted : (ofKind kind joins).Pairwise fun i j => decide (i.kind.rank ≤ j.kind.rank) = true := by
    apply List.pairwise_of_forall_mem_list
    intro i hi j hj
    rw [kind_of_mem_ofKind hi, kind_of_mem_ofKind hj]
    exact decide_eq_true le_rfl
  have hsublist : (ofKind kind joins).Sublist (normalizeJoins joins) := by
    apply List.sublist_mergeSort _ _ hsorted List.filter_sublist
    · simp only [decide_eq_true_eq]
      omega
    · simp only [Bool.or_eq_true, decide_eq_true_eq]
      omega
  have hkept : (ofKind kind joins).Sublist (ofKind kind (normalizeJoins joins)) := by
    have hfilter := hsublist.filter (·.kind = kind)
    simpa only [ofKind, List.filter_filter, Bool.and_self] using hfilter
  have hperm : (normalizeJoins joins).Perm joins := List.mergeSort_perm joins _
  exact (hkept.eq_of_length (hperm.filter _).length_eq.symm).symm

theorem ofKind_cons (kind : JoinKind) (j : Join) (joins : List Join) :
    ofKind kind (j :: joins) = if j.kind = kind then j :: ofKind kind joins else ofKind kind joins := by
  simp only [ofKind, List.filter_cons, decide_eq_true_eq]

theorem eq_ofKind_of_pairwise {joins : List Join} (h : joins.Pairwise fun i j => i.kind.rank ≤ j.kind.rank) :
    joins = ofKind .inner joins ++ ofKind .left joins ++ ofKind .right joins ++ ofKind .outer joins := by
  induction h with
  | nil => rfl
  | @cons j joins hj _ ih =>
    have hnil (kind : JoinKind) (hk : kind.rank < j.kind.rank) : ofKind kind joins = [] := by
      apply ofKind_eq_nil
      intro i hi he
      exact absurd (hj i hi) (by rw [he]; omega)
    -- kinds that come before that of the first join do not occur at all
    simp only [ofKind_cons]
    cases hk : j.kind with
    | inner => simpa using ih
    | left =>
      rw [hk] at hnil
      simpa [hnil .inner (by decide)] using ih
    | right =>
      rw [hk] at hnil
      simpa [hnil .inner (by decide), hnil .left (by decide)] using ih
    | outer =>
      rw [hk] at hnil
      simpa [hnil .inner (by decide), hnil .left (by decide),
        hnil .right (by decide)] using ih

theorem normalizeJoins_eq (joins : List Join) : normalizeJoins joins =
    ofKind .inner joins ++ ofKind .left joins ++ ofKind .right joins ++ ofKind .outer joins := by
  have h := eq_ofKind_of_pairwise (pairwise_normalizeJoins joins)
  simpa only [ofKind_normalizeJoins] using h

theorem normalizeJoins_normalizeJoins (joins : List Join) :
    normalizeJoins (normalizeJoins joins) = normalizeJoins joins := by
  rw [normalizeJoins_eq (normalizeJoins joins)]
  simp only [ofKind_normalizeJoins]
  exact (normalizeJoins_eq joins).symm

/-- Sorting is the stable partition by kind: the joins of each kind in their order and kind after kind, so sorted
by rank, with no join lost or added, and as they are when they have been sorted before. -/
theorem normalizeJoins_partition (joins : List Join) :
    normalizeJoins joins =
      joins.filter (·.kind = .inner) ++ joins.filter (·.kind = .left) ++ joins.filter (·.kind = .right) ++
        joins.filter (·.kind = .outer) ∧
    (normalizeJoins joins).Pairwise (fun i j => i.kind.rank ≤ j.kind.rank) ∧
    (normalizeJoins joins).Perm joins ∧
    normalizeJoins (normalizeJoins joins) = normalizeJoins joins :=
  ⟨normalizeJoins_eq joins, pairwise_normalizeJoins joins, List.mergeSort_perm joins _,
    normalizeJoins_normalizeJoins joins⟩

theorem keeping_eq_nil {joins : List Join} (h : ∀ j ∈ joins, j.kind.keepsRight = false) : keeping joins = [] := by
  induction joins with
  | nil => rfl
  | cons j joins ih =>
    rw [List.forall_mem_cons] at h
    rw [keeping, if_neg (by simp [h.1]), ih h.2]

theorem keeping_eq_self {joins : List Join}
    (h : ∀ j ∈ joins, j.kind.keepsLeft = true ∧ j.kind.keepsRight = true) : keeping joins = joins := by
  induction joins with
  | nil => rfl
  | cons j joins ih =>
    rw [List.forall_mem_cons] at h
    rw [keeping, if_pos ⟨h.1.2, fun i hi => (h.2 i hi).1⟩, ih h.2]

theorem keeping_eq_getLast {joins : List Join} (h : ∀ j ∈ joins, j.kind = .right) :
    keeping joins = joins.getLast?.toList := by
  induction joins with
  | nil => rfl
  | cons j joins ih =>
    rw [List.forall_mem_cons] at h
    cases joins with
    | nil => simp [keeping, h.1, JoinKind.keepsRight]
    | cons i joins =>
      have hi : i.kind = .right := h.2 i List.mem_cons_self
      rw [keeping, if_neg fun hl => absurd (hl.2 i List.mem_cons_self) (by rw [hi]; decide), ih h.2,
        List.getLast?_cons_cons]

/-- The joins whose own rows stay once the joins are sorted: the last right one and all outer ones. -/
def lasting (joins : List Join) : List Join := (ofKind .right joins).getLast?.toList ++ ofKind .outer joins

theorem keeping_normalizeJoins (joins : List Join) : keeping (normalizeJoins joins) = lasting joins := by
  have hfront : keeping (ofKind .inner joins ++ ofKind .left joins) = [] := by
    apply keeping_eq_nil
    intro j hj
    rcases List.mem_append.1 hj with hj | hj <;> rw [kind_of_mem_ofKind hj] <;> rfl
  have hright := keeping_eq_getLast fun j (hj : j ∈ ofKind .right joins) => kind_of_mem_ofKind hj
  have houter : ∀ j ∈ ofKind .outer joins, j.kind.keepsLeft = true ∧ j.kind.keepsRight = true := by
    intro j hj
    rw [kind_of_mem_ofKind hj]
    decide
  rw [normalizeJoins_eq, keeping_append, keeping_append, if_pos fun j hj => (houter j hj).1,
    keeping_eq_self houter, hright, hfront, ite_self, List.nil_append, lasting]

/-- No join that drops rows from the left comes after an outer join, and no inner join after the last right
one. -/
def SortsSafely : List JoinKind → Prop
  | [] => True
  | .outer :: kinds => .inner ∉ kinds ∧ .right ∉ kinds ∧ SortsSafely kinds
  | .right :: kinds => (.inner ∈ kinds → .right ∈ kinds) ∧ SortsSafely kinds
  | _ :: kinds => SortsSafely kinds

instance decidableSortsSafely : DecidablePred SortsSafely
  | [] => .isTrue trivial
  | .outer :: kinds =>
    have := decidableSortsSafely kinds
    inferInstanceAs (Decidable (_ ∧ _ ∧ _))
  | .right :: kinds =>
    have := decidableSortsSafely kinds
    inferInstanceAs (Decidable ((_ → _) ∧ _))
  | .inner :: kinds => decidableSortsSafely kinds
  | .left :: kinds => decidableSortsSafely kinds

theorem keepsLeft_iff {joins : List Join} : (∀ i ∈ joins, i.kind.keepsLeft = true) ↔
    .inner ∉ joins.map (·.kind) ∧ .right ∉ joins.map (·.kind) := by
  induction joins with
  | nil => simp
  | cons j joins ih =>
    rw [List.forall_mem_cons, ih]
    cases hk : j.kind <;> simp [hk, JoinKind.keepsLeft]

theorem keeping_cons (j : Join) (joins : List Join) : keeping (j :: joins) =
    if j.kind.keepsRight = true ∧ .inner ∉ joins.map (·.kind) ∧ .right ∉ joins.map (·.kind) then j :: keeping joins
    else keeping joins := by
  simp only [keeping, keepsLeft_iff]

theorem ofKind_eq_nil_of_not_mem {kind : JoinKind} {joins : List Join} (h : kind ∉ joins.map (·.kind)) :
    ofKind kind joins = [] :=
  ofKind_eq_nil fun j hj he => h (List.mem_map.2 ⟨j, hj, he⟩)

theorem lasting_cons_of_not_keepsRight {j : Join} (hj : j.kind.keepsRight = false) (joins : List Join) :
    lasting (j :: joins) = lasting joins := by
  have hr : j.kind ≠ .right := fun he => by simp [he, JoinKind.keepsRight] at hj
  have ho : j.kind ≠ .outer := fun he => by simp [he, JoinKind.keepsRight] at hj
  rw [lasting, ofKind_cons, ofKind_cons, if_neg hr, if_neg ho, lasting]

theorem lasting_cons_right {j : Join} (hj : j.kind = .right) (joins : List Join) :
    lasting (j :: joins) = (ofKind .right joins).getLast?.getD j :: ofKind .outer joins := by
  rw [lasting, ofKind_cons, ofKind_cons, if_pos hj, if_neg (by rw [hj]; decide), List.getLast?_cons]
  rfl

theorem lasting_cons_outer {j : Join} (hj : j.kind = .outer) (joins : List Join) :
    lasting (j :: joins) = (ofKind .right joins).getLast?.toList ++ j :: ofKind .outer joins := by
  rw [lasting, ofKind_cons, ofKind_cons, if_pos hj, if_neg (by rw [hj]; decide)]

/-- In a safe order the joins that keep their own rows are those that do so once sorted. -/
theorem keeping_eq_lasting {joins : List Join} (h : SortsSafely (joins.map (·.kind))) :
    keeping joins = lasting joins := by
  induction joins with
  | nil => rfl
  | cons j joins ih =>
    rw [List.map_cons] at h
    rw [keeping_cons]
    cases hk : j.kind with
    | inner | left =>
      rw [hk] at h
      rw [lasting_cons_of_not_keepsRight (by rw [hk]; rfl), if_neg (fun h => nomatch h.1)]
      exact ih h
    | right =>
      rw [hk] at h
      rw [lasting_cons_right hk]
      by_cases hr : .right ∈ joins.map (·.kind)
      · obtain ⟨i, hi, he⟩ := List.mem_map.1 hr
        have hne : ofKind .right joins ≠ [] := List.ne_nil_of_mem (List.mem_filter.2 ⟨hi, decide_eq_true he⟩)
        obtain ⟨last, hlast⟩ := Option.ne_none_iff_exists'.1 (mt List.getLast?_eq_none_iff.1 hne)
        rw [if_neg fun hl => hl.2.2 hr, ih h.2, lasting, hlast]
        rfl
      · have hnone := ofKind_eq_nil_of_not_mem hr
        rw [if_pos ⟨rfl, mt h.1 hr, hr⟩, ih h.2, lasting, hnone]
        rfl
    | outer =>
      rw [hk] at h
      have hnone := ofKind_eq_nil_of_not_mem h.2.1
      rw [lasting_cons_outer hk, if_pos ⟨rfl, h.1, h.2.1⟩, ih h.2.2, lasting, hnone]
      rfl

/-- In any other order some of them lose their rows. -/
theorem length_keeping_lt {joins : List Join} (h : ¬ SortsSafely (joins.map (·.kind))) :
    (keeping joins).length < (lasting joins).length := by
  induction joins with
  | nil => exact absurd trivial h
  | cons j joins ih =>
    -- the later joins keep no more than what lasts of them, whether or not their order is safe
    have hle : (keeping joins).length ≤ (lasting joins).length := by
      by_cases hs : SortsSafely (joins.map (·.kind))
      · rw [keeping_eq_lasting hs]
      · exact (ih hs).le
    rw [List.map_cons] at h
    rw [keeping_cons]
    cases hk : j.kind with
    | inner | left =>
      rw [hk] at h
      rw [lasting_cons_of_not_keepsRight (by rw [hk]; rfl), if_neg (fun h => nomatch h.1)]
      exact ih h
    | right =>
      rw [hk] at h
      rw [lasting_cons_right hk, List.length_cons]
      by_cases hr : .right ∈ joins.map (·.kind)
      · have hlt := ih fun hs => h ⟨fun _ => hr, hs⟩
        have hlast : (lasting joins).length ≤ (ofKind .outer joins).length + 1 := by
          rw [lasting, List.length_append, Nat.add_comm]
          exact Nat.add_le_add_left (by cases (ofKind .right joins).getLast? <;> simp) _
        rw [if_neg fun hl => hl.2.2 hr]
        omega
      · have hlast : (lasting joins).length = (ofKind .outer joins).length := by
          rw [lasting, ofKind_eq_nil_of_not_mem hr]
          rfl
        split
        next hl =>
          have hlt := ih fun hs => h ⟨fun hi => absurd hi hl.2.1, hs⟩
          rw [List.length_cons]
          omega
        next => omega
    | outer =>
      rw [hk] at h
      have hlast : (lasting (j :: joins)).length = (lasting joins).length + 1 := by
        rw [lasting_cons_outer hk, lasting, List.length_append, List.length_append, List.length_cons]
        rfl
      rw [hlast]
      split
      next hl =>
        have hlt := ih fun hs => h ⟨hl.2.1, hl.2.2, hs⟩
        rw [List.length_cons]
        omega
      next => omega

/-- Every table has one row, and it is all null. -/
def nullRows (V : Type) : Database V := fun _ => {fun _ => none}

theorem not_fits_null {V : Type} {j : Join} (hk : j.keys ≠ []) (t : TableRow V) : ¬ j.Fits (fun _ => none) t := by
  obtain ⟨k, keys, hkeys⟩ := List.exists_cons_of_ne_nil hk
  exact fun hf => (hf k (hkeys ▸ List.mem_cons_self)).1 rfl

section

variable {V : Type} [DecidableEq V] {root : AliasedName} {joins : List Join}

theorem card_rootlessRows_nullRows (h : Star root joins) :
    (rootlessRows (nullRows V) root joins).card = (keeping joins).length := by
  have hstrays : ∀ j ∈ keeping joins,
      (Multiset.card ∘ Join.strays (nullRows V) (survivors (nullRows V) root joins)) j = 1 := by
    intro j hj
    have hk := h.keyed j ((keeping_sublist joins).subset hj)
    rw [Function.comp_apply, Join.strays, Multiset.card_map, Multiset.filter_eq_self.2]
    · rfl
    · intro t _ r hr
      rw [Multiset.mem_singleton.1 (Multiset.mem_of_mem_filter hr)]
      exact not_fits_null hk t
  rw [rootlessRows, Multiset.card_bind, Multiset.map_coe, Multiset.sum_coe, List.map_congr_left hstrays]
  simp

/-- Sorting the joins to a root by kind keeps the rows of every database exactly when no join that drops rows
from the left comes after an outer join, nor an inner join after the last right one. -/
theorem joinedRows_normalizeJoins_iff (root : AliasedName) (joins : List Join) (h : Star root joins) :
    (∀ db : Database V, joinedRows db root (normalizeJoins joins) = joinedRows db root joins) ↔
      SortsSafely (joins.map (·.kind)) := by
  have hperm : (normalizeJoins joins).Perm joins := List.mergeSort_perm joins _
  have hsorted : Star root (normalizeJoins joins) := h.perm hperm.symm
  constructor
  · intro hrows
    by_contra hs
    have hnull := hrows (nullRows V)
    rw [joinedRows_eq h, joinedRows_eq hsorted, rootedRows_perm hsorted hperm, add_right_inj] at hnull
    have hcard := congrArg Multiset.card hnull
    rw [card_rootlessRows_nullRows h, card_rootlessRows_nullRows hsorted, keeping_normalizeJoins] at hcard
    exact absurd hcard.symm (length_keeping_lt hs).ne
  · intro hs db
    rw [joinedRows_eq h, joinedRows_eq hsorted, rootedRows_perm hsorted hperm, rootlessRows, rootlessRows,
      survivors_perm hperm, keeping_normalizeJoins, keeping_eq_lasting hs]

end

def contactJoin (kind : JoinKind) : Join :=
  ⟨kind, ⟨"account", ""⟩, ⟨"contact", "c"⟩, [⟨"accountid", "parentid"⟩]⟩

def leadJoin (kind : JoinKind) : Join :=
  ⟨kind, ⟨"account", ""⟩, ⟨"lead", "lead"⟩, [⟨"accountid", "customerid"⟩]⟩

def accountJoin (kind : JoinKind) : Join :=
  ⟨kind, ⟨"account", ""⟩, ⟨"account", "parent"⟩, [⟨"region", "region"⟩, ⟨"parentid", "accountid"⟩]⟩

theorem joinedRows_normalizeJoins_iff_accounts :
    Star ⟨"account", ""⟩ [contactJoin .left, leadJoin .inner, accountJoin .right] ∧
    normalizeJoins [contactJoin .left, leadJoin .inner, accountJoin .right] =
      [leadJoin .inner, contactJoin .left, accountJoin .right] ∧
    ∀ db : Database String,
      joinedRows db ⟨"account", ""⟩ (normalizeJoins [contactJoin .left, leadJoin .inner, accountJoin .right]) =
        joinedRows db ⟨"account", ""⟩ [contactJoin .left, leadJoin .inner, accountJoin .right] := by
  have hstar : Star ⟨"account", ""⟩ [contactJoin .left, leadJoin .inner, accountJoin .right] :=
    ⟨by decide, by decide, by decide⟩
  refine ⟨hstar, normalizeJoins_eq _, ?_⟩
  exact (joinedRows_normalizeJoins_iff ⟨"account", ""⟩ _ hstar).2 (by decide)

def strayContact : Database String
  | "account" => {fun column => if column = "accountid" then some "1" else none}
  | "contact" => {fun column => if column = "name" then some "Ann" else none}
  | "lead" => {fun column => if column = "customerid" then some "1" else none}
  | _ => 0

/-- The contact without an account is dropped by the join of the leads, unless that join is made before it. -/
theorem joinedRows_normalizeJoins_ne :
    Star ⟨"account", ""⟩ [contactJoin .right, leadJoin .inner] ∧
    joinedRows strayContact ⟨"account", ""⟩ (normalizeJoins [contactJoin .right, leadJoin .inner]) ≠
      joinedRows strayContact ⟨"account", ""⟩ [contactJoin .right, leadJoin .inner] := by
  refine ⟨⟨by decide, by decide, by decide⟩, fun h => ?_⟩
  have hcard := congrArg Multiset.card h
  rw [normalizeJoins_eq] at hcard
  exact absurd hcard (by decide +kernel)

end FetchQuery.Statement
