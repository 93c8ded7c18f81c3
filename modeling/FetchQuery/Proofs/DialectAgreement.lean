import FetchQuery.Proofs.ConditionColumn
import FetchQuery.Proofs.LayoutOutcome
import FetchQuery.Proofs.QuotedName

namespace FetchQuery

namespace Fallible

variable {ι ε α β : Type}

/-- The computations all fail, with the same fault, or all succeed, with results for which `P` holds. -/
def Together (P : (ι → α) → Prop) (x : ι → Except ε α) : Prop :=
  (∃ e, ∀ i, x i = .error e) ∨ ∃ a, (∀ i, x i = .ok (a i)) ∧ P a

namespace Together

variable {P : (ι → α) → Prop} {Q : (ι → β) → Prop} {x : ι → Except ε α}

theorem pure {a : ι → α} (h : P a) : Together P fun i => (Pure.pure (a i) : Except ε α) :=
  .inr ⟨a, fun _ => rfl, h⟩

theorem bind {f : ι → α → Except ε β} (h : Together P x) (hf : ∀ a, P a → Together Q fun i => f i (a i)) :
    Together Q fun i => x i >>= f i := by
  rcases h with ⟨e, he⟩ | ⟨a, ha, hp⟩
  · refine .inl ⟨e, fun i => ?_⟩
    change (x i >>= f i) = .error e
    rw [he]
    rfl
  · have hx : (fun i => x i >>= f i) = fun i => f i (a i) := by
      funext i
      rw [ha]
      rfl
    rw [hx]
    exact hf a hp

end Together

end Fallible

namespace Sql

open Layout (ofText)
open Statement (AliasedName Column Condition Filter Join KeyPair Select)
open Fallible

/-- A part of a statement that is the same in every dialect, or an identifier. -/
inductive Mark where
  | fixed (p : Piece)
  | identifier (n : String)
  deriving Repr, DecidableEq

abbrev Skeleton := List Mark

namespace Mark

def identifiers : Mark → List String
  | fixed _ => []
  | identifier n => [n]

/-- An identifier stands between the two characters; inside it the closing one is written twice. -/
def chars (o : LayoutOptions) (start close : Char) : Mark → List Char
  | fixed p => p.chars o
  | identifier n => start :: n.toList.flatMap (fun c => if c = close then [c, c] else [c]) ++ [close]

end Mark

namespace Skeleton

def identifiers (l : Skeleton) : List String := l.flatMap Mark.identifiers

def chars (o : LayoutOptions) (start close : Char) (l : Skeleton) : List Char := l.flatMap (Mark.chars o start close)

end Skeleton

theorem nil_intercalate {α : Type} (parts : List (List α)) : [].intercalate parts = parts.flatten := by
  induction parts with
  | nil => rfl
  | cons p parts ih =>
    cases parts with
    | nil => simp
    | cons q parts => rw [List.intercalate_cons_cons, ih, List.append_nil, ← List.flatten_cons]

theorem intercalate_replicate_nil {α : Type} (glue : List α) (n : Nat) :
    glue.intercalate (List.replicate (n + 1) []) = (List.replicate n glue).flatten := by
  induction n with
  | zero => rfl
  | succ n ih =>
    rw [List.replicate_succ, List.replicate_succ, List.intercalate_cons_cons, ← List.replicate_succ, ih,
      List.replicate_succ, List.flatten_cons, List.nil_append]

namespace Dialect

theorem doubled_eq_flatMap (close : Char) (cs : List Char) :
    Text.doubled close cs = cs.flatMap fun c => if c = close then [c, c] else [c] := by
  induction cs with
  | nil => rfl
  | cons c cs ih =>
    rw [Text.doubled, List.flatMap_cons, ih]
    split <;> rfl

theorem toList_quote_eq_chars (d : Dialect) (o : LayoutOptions) (n : String) :
    (d.quote n).toList = Mark.chars o d.start d.close (.identifier n) := by
  rw [Mark.chars, ← doubled_eq_flatMap]
  exact d.toList_quote n

end Dialect

/-- The layouts of the dialects follow one skeleton, in which these identifiers occur. -/
def Shared (identifiers : List String) (l : Dialect → Layout) : Prop :=
  ∃ skeleton : Skeleton, skeleton.identifiers = identifiers ∧
    ∀ d o, (l d).chars o = skeleton.chars o d.start d.close

def SharedParts (identifiers : List (List String)) (parts : Dialect → List Layout) : Prop :=
  ∃ skeletons : List Skeleton, skeletons.map Skeleton.identifiers = identifiers ∧
    ∀ d o, (parts d).map (Layout.chars o) = skeletons.map (Skeleton.chars o d.start d.close)

namespace Shared

variable {ns ms : List String} {l m : Dialect → Layout}

theorem congr (h : Shared ns l) (he : ∀ d o, (m d).chars o = (l d).chars o) : Shared ns m := by
  obtain ⟨skeleton, hn, hl⟩ := h
  exact ⟨skeleton, hn, fun d o => (he d o).trans (hl d o)⟩

theorem fixed (l : Layout) : Shared [] fun _ => l := by
  refine ⟨l.map Mark.fixed, ?_, fun d o => ?_⟩
  · rw [Skeleton.identifiers, List.flatMap_map]
    exact List.flatMap_eq_nil_iff.2 fun _ _ => rfl
  · rw [Skeleton.chars, List.flatMap_map]
    rfl

theorem identifier (n : String) : Shared [n] fun d => ofText (d.quote n) := by
  refine ⟨[.identifier n], rfl, fun d o => ?_⟩
  rw [Layout.chars_ofText, d.toList_quote_eq_chars o]
  exact (List.append_nil _).symm

theorem append (hl : Shared ns l) (hm : Shared ms m) : Shared (ns ++ ms) fun d => l d ++ m d := by
  obtain ⟨skeleton, hn, hl⟩ := hl
  obtain ⟨skeleton', hn', hm⟩ := hm
  refine ⟨skeleton ++ skeleton', ?_, fun d o => ?_⟩
  · rw [← hn, ← hn']
    exact List.flatMap_append
  · rw [Layout.chars_append, hl, hm]
    exact List.flatMap_append.symm

theorem before (m : Layout) (hl : Shared ns l) : Shared ns fun d => m ++ l d := (fixed m).append hl

theorem after (m : Layout) (hl : Shared ns l) : Shared ns fun d => l d ++ m := by
  rw [← List.append_nil ns]
  exact hl.append (fixed m)

theorem join {nss : List (List String)} {parts : Dialect → List Layout} (hl : Shared ns l)
    (hp : SharedParts nss parts) : Shared (ns.intercalate nss) fun d => Layout.join (l d) (parts d) := by
  obtain ⟨glue, hn, hl⟩ := hl
  obtain ⟨skeletons, hns, hp⟩ := hp
  refine ⟨glue.intercalate skeletons, ?_, fun d o => ?_⟩
  · rw [← hn, ← hns]
    exact Text.flatMap_intercalate ..
  · rw [Layout.chars_join, hl, hp]
    exact (Text.flatMap_intercalate ..).symm

end Shared

namespace SharedParts

variable {nss mss : List (List String)} {parts parts' : Dialect → List Layout}

theorem nil : SharedParts [] fun _ => [] := ⟨[], rfl, fun _ _ => rfl⟩

theorem cons {ns : List String} {l : Dialect → Layout} (hl : Shared ns l) (h : SharedParts nss parts) :
    SharedParts (ns :: nss) fun d => l d :: parts d := by
  obtain ⟨skeleton, hn, hl⟩ := hl
  obtain ⟨skeletons, hns, h⟩ := h
  refine ⟨skeleton :: skeletons, by rw [List.map_cons, hn, hns], fun d o => ?_⟩
  rw [List.map_cons, List.map_cons, hl, h]

theorem append (h : SharedParts nss parts) (h' : SharedParts mss parts') :
    SharedParts (nss ++ mss) fun d => parts d ++ parts' d := by
  obtain ⟨skeletons, hns, h⟩ := h
  obtain ⟨skeletons', hns', h'⟩ := h'
  refine ⟨skeletons ++ skeletons', by rw [List.map_append, hns, hns'], fun d o => ?_⟩
  rw [List.map_append, List.map_append, h, h']

theorem map {α : Type} {items : List α} {identifiers : α → List String} {part : Dialect → α → Layout}
    (h : ∀ a ∈ items, Shared (identifiers a) fun d => part d a) :
    SharedParts (items.map identifiers) fun d => items.map (part d) := by
  induction items with
  | nil => exact .nil
  | cons a items ih =>
    rw [List.forall_mem_cons] at h
    exact .cons h.1 (ih h.2)

theorem mapM {α : Type} {items : List α} {identifiers : α → List String}
    {part : Dialect → α → Except Fault Layout}
    (h : ∀ a ∈ items, Together (Shared (identifiers a)) fun d => part d a) :
    Together (SharedParts (items.map identifiers)) fun d => items.mapM (part d) := by
  induction items with
  | nil => exact .pure .nil
  | cons a items ih =>
    rw [List.forall_mem_cons] at h
    simp only [List.mapM_cons]
    exact h.1.bind fun l hl => (ih h.2).bind fun parts hp => .pure (.cons hl hp)

theorem fixed (parts : List Layout) : SharedParts (List.replicate parts.length []) fun _ => parts := by
  induction parts with
  | nil => exact .nil
  | cons l parts ih => exact .cons (.fixed l) ih

end SharedParts

namespace Shared

theorem list (glue : Layout) {nss : List (List String)} {parts : Dialect → List Layout}
    (h : SharedParts nss parts) : Shared nss.flatten fun d => Layout.join glue (parts d) := by
  rw [← nil_intercalate]
  exact (fixed glue).join h

theorem clause {α : Type} (keyword : String) {items : List α} {identifiers : α → List String}
    {item : Dialect → α → Layout} (h : ∀ a ∈ items, Shared (identifiers a) fun d => item d a) :
    Shared (items.flatMap identifiers) fun d => if !items.isEmpty then
      [.lineBreak 0, .text keyword, .lineBreak 1] ++ Layout.join [.comma] (items.map (item d)) else [] := by
  have hitems := (list [.comma] (SharedParts.map h)).before [.lineBreak 0, .text keyword, .lineBreak 1]
  cases items with
  | nil => exact fixed []
  | cons a items => exact hitems

end Shared

end Sql

namespace Statement

def Column.identifiers (c : Column) : List String := if c.isWildcard then [] else [c.expression]

/-- A condition has the identifier of its column as often as its operator names it. -/
def Condition.identifiers (c : Condition) : List String :=
  (List.replicate (Operator.mentionsOf c.operator) c.column.identifiers).flatten

def Join.identifiers (j : Join) : List String := j.target.name :: j.keys.flatMap fun k => [k.source, k.target]

def Select.identifiers (s : Select) : List String :=
  s.columns.flatMap Column.identifiers ++ s.source.name :: s.joins.flatMap Join.identifiers ++
    s.conditions.flatMap Condition.identifiers ++ s.orderBy.map (·.column.name) ++ s.groupBy.map (·.name)

/-- Whether the dialects agree on the condition: its operator is neither on dates nor on the current user. -/
def Condition.isCommon (c : Condition) : Bool := (Operator.named? c.operator).all Operator.isCommon

end Statement

namespace Sql

open Layout (ofText)
open Statement (AliasedName Column Condition Filter Join KeyPair Select)
open Fallible

section

variable (ambient : String)

theorem qualified_shared (qualifier n : String) : Shared [n] fun d => ofText (qualified qualifier (d.quote n)) := by
  by_cases hq : qualifier = ""
  · simp only [qualified, if_pos hq]
    exact .identifier n
  · apply ((Shared.identifier n).before (ofText (qualifier ++ "."))).congr
    intro d o
    simp [qualified, hq]

theorem nameLayout_shared (n : AliasedName) : Shared [n.name] fun d => nameLayout d ambient n :=
  qualified_shared _ n.name

theorem columnLayout_shared (c : Column) : Shared c.identifiers fun d => columnLayout d ambient c := by
  have hreference : Shared c.identifiers fun d => ofText (qualified (if c.hasQualifier then c.qualifier else ambient)
      (if c.isWildcard then c.expression else d.quote c.expression)) := by
    unfold Column.identifiers
    split
    · exact .fixed _
    · exact qualified_shared _ c.expression
  unfold columnLayout
  apply Shared.after
  cases c.function? with
  | none => exact hreference.before _
  | some aggregate => exact ((hreference.before _).before _).after _

theorem keyEquality_shared (source target : String) (k : KeyPair) : Shared [k.source, k.target] fun d =>
    ofText (source ++ "." ++ d.quote k.source ++ " = " ++ target ++ "." ++ d.quote k.target) := by
  apply (((Shared.identifier k.source).before (ofText (source ++ "."))).append
    ((Shared.identifier k.target).before (ofText (" = " ++ target ++ ".")))).congr
  intro d o
  simp

theorem joinLayout_shared (j : Join) : Shared j.identifiers fun d => joinLayout d j := by
  have hkeys := Shared.list [.space, .text "and", .space] (SharedParts.map fun k (_ : k ∈ j.keys) =>
    keyEquality_shared j.source.exposed j.target.exposed k)
  have htable := ((Shared.identifier j.target.name).before
    [.text (joinKeyword j.kind), .space, .text "join", .space]).after
      [.space, .text j.target.exposed, .space, .text "on", .lineBreak 2, .text "("]
  rw [Join.identifiers, List.flatMap_def]
  exact (htable.append hkeys).after _

theorem conditionLayout_shared {c : Condition} (h : c.isCommon = true) :
    Together (Shared c.identifiers) fun d => conditionLayout d ambient c := by
  have hcommon (d : Dialect) (lhs : Layout) := Dialect.condition_common d .sqlServer h lhs c.operands.toList
  unfold conditionLayout
  simp only [hcommon]
  obtain ⟨fault, he⟩ | ⟨parts, hlength, hparts⟩ := Dialect.sqlServer.condition_surrounds c.operator c.operands.toList
  · exact .inl ⟨fault, fun d => he _⟩
  · refine .inr ⟨_, fun d => hparts _, ?_⟩
    have hshared := (columnLayout_shared ambient c.column).join (.fixed parts)
    rwa [hlength, intercalate_replicate_nil] at hshared

theorem filterLayout_shared {f : Filter} (h : ∀ c ∈ f.allConditions, c.isCommon = true) :
    Together (Shared (f.allConditions.flatMap Condition.identifiers)) fun d => filterLayout d ambient f := by
  induction f using Filter.nested_induction with
  | step f ih =>
    obtain ⟨connective, conditions, subfilters⟩ := f
    rw [Filter.allConditions_eq] at h
    rw [List.forall_mem_append] at h
    have hown := SharedParts.mapM fun c (hc : c ∈ conditions) => conditionLayout_shared ambient (h.1 c hc)
    have hnested := SharedParts.mapM fun g (hg : g ∈ subfilters.filter Filter.isSpecified) =>
      ih g (List.mem_of_mem_filter hg) fun c hc => h.2 c (List.mem_flatMap.2 ⟨g, List.mem_of_mem_filter hg, hc⟩)
    simp only [filterLayout, subfilterLayouts_eq_mapM]
    refine hown.bind fun own ho => hnested.bind fun nested hn => .pure ?_
    rw [Filter.allConditions_eq, List.flatMap_append, ← Filter.flatMap_filter_isSpecified, List.flatMap_assoc,
      List.flatMap_def, List.flatMap_def, ← List.flatten_append]
    exact ((Shared.list [.space, .text connective.keyword, .space] (ho.append hn)).before _).after _

end

section

variable (s : Select)

theorem columnsLayout_shared : Shared (s.columns.flatMap Column.identifiers) fun d => columnsLayout d s := by
  have hcolumns (columns : List Column) := Shared.list [.columnSeparator] (SharedParts.map
    fun c (_ : c ∈ columns) => columnLayout_shared (ambientName s) c)
  unfold columnsLayout
  apply Shared.before
  cases hs : s.columns with
  | nil => exact hcolumns [Column.wildcard ""]
  | cons c columns =>
    rw [List.flatMap_def]
    exact hcolumns (c :: columns)

theorem fromLayout_shared :
    Shared (s.source.name :: s.joins.flatMap Join.identifiers) fun d => fromLayout d s := by
  have htable := (Shared.identifier s.source.name).before [.lineBreak 0, .text "from", .lineBreak 0]
  have hjoins := Shared.list [.lineBreak 1] (SharedParts.map fun j (_ : j ∈ s.joins) => joinLayout_shared j)
  unfold fromLayout Select.hasJoins
  rw [← List.singleton_append, List.flatMap_def]
  cases hj : s.joins with
  | nil => exact htable
  | cons j joins =>
    rw [hj] at hjoins
    exact htable.append (hjoins.before _)

theorem orderLayout_shared : Shared (s.orderBy.map (·.column.name)) fun d => orderLayout d s := by
  rw [List.map_eq_flatMap]
  apply Shared.clause "order by"
  exact fun r _ => (nameLayout_shared (ambientName s) r.column).after _

theorem groupLayout_shared : Shared (s.groupBy.map (·.name)) fun d => groupLayout d s := by
  rw [List.map_eq_flatMap]
  apply Shared.clause "group by"
  exact fun n _ => nameLayout_shared (ambientName s) n

variable {s}

theorem whereLayout_shared (h : ∀ c ∈ s.conditions, c.isCommon = true) :
    Together (Shared (s.conditions.flatMap Condition.identifiers)) fun d => whereLayout d s := by
  unfold whereLayout Select.specifiedFilter?
  unfold Select.conditions at h ⊢
  cases hs : s.filter with
  | none => exact .pure (.fixed [])
  | some f =>
    rw [hs, Option.toList_some, List.flatMap_singleton] at h
    rw [Option.toList_some, List.flatMap_singleton]
    cases hf : f.isSpecified with
    | true =>
      simp only [Option.filter_some_pos hf]
      exact (filterLayout_shared (ambientName s) h).bind fun l hl => .pure (hl.before _)
    | false =>
      have hc : f.allConditions = [] := by simpa [Filter.isSpecified_eq] using hf
      simp only [Option.filter_some_neg hf, hc]
      exact .pure (.fixed [])

end

def bodyLayout (d : Dialect) (s : Select) : Except Fault Layout := do
  let filter ← whereLayout d s
  return columnsLayout d s ++ fromLayout d s ++ filter ++ orderLayout d s ++ groupLayout d s

theorem selectLayout_eq_body (d : Dialect) (s : Select) : selectLayout d s =
    (bodyLayout d s).map fun body => headLayout d s ++ body ++ tailLayout d s := by
  unfold selectLayout bodyLayout
  cases whereLayout d s with
  | error fault => rfl
  | ok filter => exact congrArg Except.ok (by simp only [List.append_assoc])

theorem bodyLayout_shared {s : Select} (h : ∀ c ∈ s.conditions, c.isCommon = true) :
    Together (Shared s.identifiers) fun d => bodyLayout d s := by
  unfold bodyLayout
  refine (whereLayout_shared h).bind fun filter hf => .pure ?_
  exact ((((columnsLayout_shared s).append (fromLayout_shared s)).append hf).append (orderLayout_shared s)).append
    (groupLayout_shared s)

def opening (s : Select) : Layout := ofText "select" ++ if s.distinct then [.space, .text "distinct"] else []

def topRows (s : Select) : Layout :=
  match s.top with
  | some rows => [.space, .text "top", .space, .text (toString rows.toNat)]
  | none => []

def lastRows (s : Select) : Layout :=
  match s.top with
  | some rows => [.lineBreak 0, .text "limit", .space, .text (toString rows.toNat)]
  | none => []

section

variable (s : Select)

theorem headLayout_sqlServer : headLayout .sqlServer s = opening s ++ topRows s := by
  unfold headLayout topRows
  cases s.top <;> rfl

theorem tailLayout_sqlServer : tailLayout .sqlServer s = [] := by
  unfold tailLayout
  cases s.top <;> rfl

theorem headLayout_postgres : headLayout .postgres s = opening s := by
  unfold headLayout
  cases s.top <;> exact List.append_nil _

theorem tailLayout_postgres : tailLayout .postgres s = lastRows s := by
  unfold tailLayout lastRows
  cases s.top <;> rfl

end

theorem selectText_of_body {d : Dialect} {s : Select} {l : Layout} (h : bodyLayout d s = .ok l) (o : LayoutOptions) :
    selectText d o s = .ok (String.ofList
      ((headLayout d s).chars o ++ l.chars o ++ (tailLayout d s).chars o)) := by
  rw [selectText_eq_render, selectLayout_eq_body, h]
  simp only [Except.map, Layout.render]
  rw [← Layout.chars, Layout.chars_append, Layout.chars_append]

/-- Without conditions on dates or on the current user, the dialects fail with the same fault or follow one skeleton:
they only differ in how they quote its identifiers and in where they put the number of rows. -/
theorem selectText_skeleton (s : Select) (h : ∀ c ∈ s.conditions, c.isCommon = true) :
    (∃ fault, ∀ d o, selectText d o s = .error fault) ∨
    ∃ body : Skeleton, body.identifiers = s.identifiers ∧ ∀ o,
      selectText .sqlServer o s = .ok (String.ofList
        ((opening s).chars o ++ (topRows s).chars o ++ body.chars o '[' ']')) ∧
      selectText .postgres o s = .ok (String.ofList
        ((opening s).chars o ++ body.chars o '"' '"' ++ (lastRows s).chars o)) := by
  rcases bodyLayout_shared h with ⟨fault, he⟩ | ⟨l, hl, body, hn, hchars⟩
  · left
    refine ⟨fault, fun d o => ?_⟩
    have hbody : bodyLayout d s = .error fault := he d
    rw [selectText_eq_render, selectLayout_eq_body, hbody]
    rfl
  · right
    refine ⟨body, hn, fun o => ⟨?_, ?_⟩⟩
    · rw [selectText_of_body (hl .sqlServer), hchars, headLayout_sqlServer, tailLayout_sqlServer, Layout.chars_append,
        Layout.chars_nil, List.append_nil]
      rfl
    · rw [selectText_of_body (hl .postgres), hchars, headLayout_postgres, tailLayout_postgres]
      rfl

def quotedAccounts : Select where
  source := ⟨"account", ""⟩
  distinct := true
  top := some 5
  columns := [{ expression := "a]b", aggregate := some "max" }, { expression := "*" }]
  filter := some ⟨.and, [⟨{ expression := "c\"d" }, "between", .multiple ["1", "2"]⟩], []⟩
  joins := []
  orderBy := [⟨.ascending, ⟨"a]b", ""⟩⟩]
  groupBy := []

theorem selectText_skeleton_quoted : (∀ c ∈ quotedAccounts.conditions, c.isCommon = true) ∧
    ∃ body : Skeleton, body.identifiers = ["a]b", "account", "c\"d", "c\"d", "a]b"] ∧ ∀ o,
      selectText .sqlServer o quotedAccounts = .ok (String.ofList
        ((opening quotedAccounts).chars o ++ (topRows quotedAccounts).chars o ++ body.chars o '[' ']')) ∧
      selectText .postgres o quotedAccounts = .ok (String.ofList
        ((opening quotedAccounts).chars o ++ body.chars o '"' '"' ++ (lastRows quotedAccounts).chars o)) := by
  have h : ∀ c ∈ quotedAccounts.conditions, c.isCommon = true := by decide
  refine ⟨h, (selectText_skeleton quotedAccounts h).resolve_left ?_⟩
  rintro ⟨fault, he⟩
  cases he .sqlServer .compact

example : selectText .postgres .compact quotedAccounts = .ok ("select distinct max(\"a]b\"), * from \"account\" where " ++
    "((\"c\"\"d\" >= 1 and \"c\"\"d\" <= 2)) order by \"a]b\" asc limit 5") := by
  decide +kernel

end Sql

end FetchQuery
