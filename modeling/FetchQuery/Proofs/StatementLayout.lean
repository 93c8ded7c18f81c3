import FetchQuery.Proofs.ConditionColumn
import FetchQuery.Sql.Select

namespace FetchQuery.Sql

open Layout (ofText)
open Statement

def aggregatedLayout (aggregate : String) (value : Layout) : Layout :=
  ofText (aggregateFunction aggregate ++ "(") ++ value ++ ofText ")"

def columnLayout (d : Dialect) (ambient : String) (c : Column) : Layout :=
  let qualifier := if c.hasQualifier then c.qualifier else ambient
  let reference := qualified qualifier (if c.isWildcard then c.expression else d.quote c.expression)
  let base := (if c.distinct then [.text "distinct", .space] else []) ++ ofText reference
  let value := match c.function? with
    | some aggregate => aggregatedLayout aggregate base
    | none => base
  value ++ if c.hasName then [.space, .text "as", .space, .text (literal c.name)] else []

def nameLayout (d : Dialect) (ambient : String) (n : AliasedName) : Layout :=
  ofText (qualified (if n.hasAlias then n.aliasName else ambient) (d.quote n.name))

def joinLayout (d : Dialect) (j : Join) : Layout :=
  let equality (k : KeyPair) : Layout :=
    ofText (j.source.exposed ++ "." ++ d.quote k.source ++ " = " ++
      j.target.exposed ++ "." ++ d.quote k.target)
  [.text (joinKeyword j.kind), .space, .text "join", .space, .text (d.quote j.target.name), .space,
    .text j.target.exposed, .space, .text "on", .lineBreak 2, .text "("] ++
    Layout.join [.space, .text "and", .space] (j.keys.map equality) ++ ofText ")"

def conditionLayout (d : Dialect) (ambient : String) (c : Condition) : Except Fault Layout :=
  d.condition (columnLayout d ambient c.column) c.operator c.operands.toList

mutual

def filterLayout (d : Dialect) (ambient : String) : Filter → Except Fault Layout
  | ⟨connective, conditions, subfilters⟩ => do
    let own ← conditions.mapM (conditionLayout d ambient)
    let nested ← subfilterLayouts d ambient subfilters
    return ofText "(" ++ Layout.join [.space, .text connective.keyword, .space] (own ++ nested) ++
      ofText ")"

def subfilterLayouts (d : Dialect) (ambient : String) : List Filter → Except Fault (List Layout)
  | [] => return []
  | f :: fs => do
    if f.isSpecified then
      let first ← filterLayout d ambient f
      let rest ← subfilterLayouts d ambient fs
      return first :: rest
    else subfilterLayouts d ambient fs

end

def headLayout (d : Dialect) (s : Select) : Layout :=
  ofText "select" ++ (if s.distinct then [.space, .text "distinct"] else []) ++
    match s.top, d.rowLimit with
    | some rows, .top => [.space, .text "top", .space, .text (toString rows.toNat)]
    | _, _ => []

def columnsLayout (d : Dialect) (s : Select) : Layout :=
  let columns := if s.columns.isEmpty then [Column.wildcard ""] else s.columns
  [.lineBreak 1] ++ Layout.join [.columnSeparator] (columns.map (columnLayout d (ambientName s)))

def fromLayout (d : Dialect) (s : Select) : Layout :=
  [.lineBreak 0, .text "from", .lineBreak 0, .text (d.quote s.source.name)] ++
    if s.hasJoins then
      [.space, .text "as", .space, .text (ambientName s), .lineBreak 1] ++
        Layout.join [.lineBreak 1] (s.joins.map (joinLayout d))
    else []

def whereLayout (d : Dialect) (s : Select) : Except Fault Layout :=
  match s.specifiedFilter? with
  | some f => do
    return [.lineBreak 0, .text "where", .lineBreak 1] ++ (← filterLayout d (ambientName s) f)
  | none => return []

def orderLayout (d : Dialect) (s : Select) : Layout :=
  let item (o : Order) : Layout :=
    nameLayout d (ambientName s) o.column ++ [.space, .text o.direction.keyword]
  if s.hasOrderBy then
    [.lineBreak 0, .text "order by", .lineBreak 1] ++ Layout.join [.comma] (s.orderBy.map item)
  else []

def groupLayout (d : Dialect) (s : Select) : Layout :=
  if s.hasGroupBy then
    [.lineBreak 0, .text "group by", .lineBreak 1] ++
      Layout.join [.comma] (s.groupBy.map (nameLayout d (ambientName s)))
  else []

def tailLayout (d : Dialect) (s : Select) : Layout :=
  match s.top, d.rowLimit with
  | some rows, .limit => [.lineBreak 0, .text "limit", .space, .text (toString rows.toNat)]
  | _, _ => []

/-- The texts of a statement in order, with slots between them whose levels are settled: what the formatter
writes, whatever its options. -/
def selectLayout (d : Dialect) (s : Select) : Except Fault Layout := do
  let filter ← whereLayout d s
  return headLayout d s ++ columnsLayout d s ++ fromLayout d s ++ filter ++ orderLayout d s ++
    groupLayout d s ++ tailLayout d s

def Piece.render (o : LayoutOptions) (p : Piece) : String := String.ofList (p.chars o)

@[simp] theorem Piece.render_text {o : LayoutOptions} (s : String) : (text s).render o = s :=
  String.ofList_toList

@[simp] theorem Piece.render_comma {o : LayoutOptions} : comma.render o = o.comma := String.ofList_toList

namespace Layout

variable {o : LayoutOptions}

@[simp] theorem render_nil : render o [] = "" := rfl

@[simp] theorem render_cons (p : Piece) (l : Layout) : render o (p :: l) = p.render o ++ render o l := by
  simp [render, Piece.render]

@[simp] theorem render_append (l m : Layout) : render o (l ++ m) = render o l ++ render o m := by
  simp [render]

@[simp] theorem render_ofText (s : String) : render o (ofText s) = s := by
  simp [render, ofText, Piece.chars]

theorem render_join (glue : Layout) (parts : List Layout) :
    render o (join glue parts) = Text.join (render o glue) (parts.map (render o)) := by
  match parts with
  | [] => rfl
  | [p] => simp [join, Text.join]
  | p :: q :: parts =>
    have ih := render_join glue (q :: parts)
    simp only [join, List.map_cons] at ih ⊢
    rw [List.intercalate_cons_cons, render_append, render_append, ih, Text.join]

end Layout

theorem Dialect.condition_render (d : Dialect) (o : LayoutOptions) (lhs : Layout) (id : String)
    (operands : List String) :
    (d.condition (ofText (lhs.render o)) id operands).map (Layout.render o) =
      (d.condition lhs id operands).map (Layout.render o) := by
  obtain ⟨fault, h⟩ | ⟨parts, _, h⟩ := d.condition_surrounds id operands
  · exact congrArg (Except.map _) ((h _).trans (h lhs).symm)
  · simp only [h, Except.map, Layout.render_join, Layout.render_ofText]

namespace Formatter

open Fallible

variable {α β γ : Type} {o : LayoutOptions} {level : Nat}

/-- Writing comes to `r` and ends at the level where it began. -/
def Gives (x : Formatter α) (o : LayoutOptions) (level : Nat) (r : Except Fault α) : Prop :=
  x.run o level = (r, level)

theorem run_bind (x : Formatter α) (f : α → Formatter β) (o : LayoutOptions) (level : Nat) :
    (x >>= f).run o level = match x.run o level with
      | (.ok a, after) => (f a).run o after
      | (.error fault, after) => (.error fault, after) := by
  simp only [run, ReaderT.run_bind, ExceptT.run_bind, StateT.run_bind, Id.run_bind]
  rcases (StateT.run (ExceptT.run (ReaderT.run x o)) level).run with ⟨_ | a, after⟩ <;> rfl

theorem run_nested (x : Formatter α) (o : LayoutOptions) (level : Nat) :
    (nested x).run o level = ((x.run o (level + 1)).1, (x.run o (level + 1)).2 - 1) := by
  have hpure {β : Type} (b : β) (l : Nat) : (StateT.pure b : StateM Nat β) l = (b, l) := rfl
  show (nested x) o level = ((x o (level + 1)).1, (x o (level + 1)).2 - 1)
  -- the level comes back on both ways out, so a fault and a result are cases alike
  rcases h : x o (level + 1) with ⟨_ | a, after⟩ <;>
    simp [nested, tryFinally, tryFinally', modify, modifyGet, MonadStateOf.modifyGet, monadLift, MonadLift.monadLift,
      bind, ReaderT.bind, ExceptT.bind, ExceptT.bindCont, StateT.bind, ExceptT.mk, Functor.map, ExceptT.map, StateT.map,
      ExceptT.lift, StateT.modifyGet, pure, hpure, h]

namespace Gives

variable {x : Formatter α} {f : α → Formatter β} {r : Except Fault β}

theorem andThen {a : α} (h : Gives x o level (.ok a)) (hf : Gives (f a) o level r) :
    Gives (x >>= f) o level r := by
  rw [Gives, run_bind, h]
  exact hf

theorem bind {t : γ → α} {y : Except Fault γ} {g : γ → Except Fault β} (h : Gives x o level (y.map t))
    (hf : ∀ c, Gives (f (t c)) o level (g c)) : Gives (x >>= f) o level (y >>= g) := by
  rw [Gives, run_bind, h]
  cases y with
  | error fault => rfl
  | ok c => exact hf c

theorem nested {r : Except Fault α} (h : Gives x o (level + 1) r) : Gives (nested x) o level r := by
  rw [Gives, run_nested, h]
  rfl

theorem mapM {f : α → Formatter β} {t : γ → β} {g : α → Except Fault γ} {as : List α}
    (h : ∀ a ∈ as, Gives (f a) o level ((g a).map t)) :
    Gives (as.mapM f) o level ((as.mapM g).map (List.map t)) := by
  induction as with
  | nil => rfl
  | cons a as ih =>
    rw [List.forall_mem_cons] at h
    rw [List.mapM_cons, List.mapM_cons, map_bind]
    refine bind h.1 fun c => ?_
    rw [map_bind]
    exact bind (ih h.2) fun cs => rfl

theorem mapM_ok {f : α → Formatter β} {t : α → β} {as : List α} (h : ∀ a, Gives (f a) o level (.ok (t a))) :
    Gives (as.mapM f) o level (.ok (as.map t)) := by
  induction as with
  | nil => rfl
  | cons a as ih =>
    rw [List.mapM_cons]
    exact (h a).andThen (ih.andThen rfl)

end Gives

theorem gives_pure {a b : α} (h : a = b) : Gives (pure a) o level (.ok b) := by
  rw [h]
  rfl

theorem gives_read : Gives read o level (.ok o) := rfl

theorem gives_space : Gives space o level (.ok (Piece.space.render o)) := rfl

theorem gives_lineBreak :
    Gives lineBreak o level (.ok ((Piece.lineBreak level).render o)) := by
  show run (if o.pretty = true then _ else space) o level = _
  by_cases hp : o.pretty = true
  · rw [if_pos hp, Piece.render, Piece.chars, Piece.breakChars, if_pos hp]
    rfl
  · rw [if_neg hp, Piece.render, Piece.chars, Piece.breakChars, if_neg hp]
    rfl

theorem gives_columnSeparator :
    Gives columnSeparator o 1 (.ok (Piece.columnSeparator.render o)) := by
  show run (if o.pretty = true then _ else _) o 1 = _
  by_cases hp : o.pretty = true
  · rw [if_pos hp, Piece.render, Piece.chars, Piece.columnSeparatorChars, if_pos hp, String.ofList_append]
    exact gives_lineBreak.andThen rfl
  · rw [if_neg hp, Piece.render, Piece.chars, Piece.columnSeparatorChars, if_neg hp, String.ofList_toList]
    rfl

theorem gives_column (d : Dialect) (ambient : String) (c : Column) :
    Gives (column d ambient c) o level (.ok ((columnLayout d ambient c).render o)) := by
  refine gives_space.andThen (gives_pure ?_)
  simp only [columnLayout]
  cases c.function? <;> cases c.distinct <;> cases c.hasName <;>
    simp [aggregated, aggregatedLayout, String.append_assoc]

theorem gives_join (d : Dialect) (j : Join) :
    Gives (join d j) o 1 (.ok ((joinLayout d j).render o)) := by
  refine gives_space.andThen (.nested (gives_lineBreak.andThen (gives_pure ?_)))
  simp [joinLayout, Layout.render_join, String.append_assoc, Function.comp_def]

theorem gives_condition (d : Dialect) (ambient : String) (c : Condition) :
    Gives (condition d ambient c) o level ((conditionLayout d ambient c).map (Layout.render o)) := by
  refine (gives_column d ambient c.column).andThen ?_
  rw [conditionLayout, ← Dialect.condition_render]
  cases d.condition (ofText (Layout.render o (columnLayout d ambient c.column))) c.operator c.operands.toList <;> rfl

mutual

theorem gives_filter (d : Dialect) (ambient : String) (f : Filter) :
    Gives (filter d ambient f) o level ((filterLayout d ambient f).map (Layout.render o)) := by
  match f with
  | ⟨connective, conditions, subfilters⟩ =>
    rw [filter, filterLayout, map_bind]
    refine .bind (.mapM fun c _ => gives_condition d ambient c) fun own => ?_
    rw [map_bind]
    refine .bind (gives_specified d ambient subfilters) fun inner => ?_
    refine gives_space.andThen (gives_pure ?_)
    simp [Layout.render_join, String.append_assoc]

theorem gives_specified (d : Dialect) (ambient : String) (fs : List Filter) :
    Gives (specified d ambient fs) o level
      ((subfilterLayouts d ambient fs).map (List.map (Layout.render o))) := by
  match fs with
  | [] => rfl
  | f :: fs =>
    rw [specified, subfilterLayouts]
    split
    · rw [Fallible.map_bind]
      refine .bind (gives_filter d ambient f) fun first => ?_
      rw [map_bind]
      exact .bind (gives_specified d ambient fs) fun rest => rfl
    · exact gives_specified d ambient fs

end

variable (d : Dialect) (s : Select)

theorem gives_head : Gives (head d s) o level (.ok ((headLayout d s).render o)) := by
  refine gives_space.andThen (gives_pure ?_)
  simp only [headLayout]
  cases s.distinct <;> cases s.top <;> cases d.rowLimit <;> simp [String.append_assoc]

theorem gives_columns : Gives (columns d s) o 0 (.ok ((columnsLayout d s).render o)) := by
  refine .nested ((Gives.mapM_ok (gives_column d (ambientName s))).andThen ?_)
  refine gives_lineBreak.andThen (gives_columnSeparator.andThen (gives_pure ?_))
  simp [columnsLayout, Layout.render_join, Function.comp_def]

theorem gives_joins : Gives (joins d s) o 0
    (.ok (Layout.render o ([.lineBreak 1] ++ Layout.join [.lineBreak 1] (s.joins.map (joinLayout d))))) := by
  refine .nested ((Gives.mapM_ok (gives_join d)).andThen ?_)
  refine gives_lineBreak.andThen (gives_lineBreak.andThen (gives_pure ?_))
  simp [Layout.render_join, Function.comp_def]

theorem gives_tables : Gives (tables d s) o 0 (.ok ((fromLayout d s).render o)) := by
  refine gives_space.andThen (gives_lineBreak.andThen (gives_lineBreak.andThen ?_))
  unfold fromLayout
  split
  · refine (gives_joins d s).andThen (gives_pure ?_)
    simp [String.append_assoc]
  · refine gives_pure ?_
    simp [String.append_assoc]

theorem gives_clause (keyword : String) {body : Formatter String} {r : Except Fault Layout}
    (h : Gives body o 1 (r.map (Layout.render o))) :
    Gives (clause keyword body) o 0
      (r.map fun l => Layout.render o ([.lineBreak 0, .text keyword, .lineBreak 1] ++ l)) := by
  refine gives_lineBreak.andThen (.nested (gives_lineBreak.andThen ?_))
  rw [Gives, run_bind, h]
  cases r with
  | error fault => rfl
  | ok l =>
    refine gives_pure ?_
    simp [String.append_assoc]

theorem gives_restriction :
    Gives (restriction d s) o 0 ((whereLayout d s).map (Layout.render o)) := by
  unfold restriction whereLayout
  cases s.specifiedFilter? with
  | none => rfl
  | some f =>
    simp only [map_bind_pure]
    exact gives_clause "where" (gives_filter d (ambientName s) f)

theorem render_nameLayout (ambient : String) (n : AliasedName) :
    (nameLayout d ambient n).render o = name d ambient n := Layout.render_ofText _

theorem gives_ordering : Gives (ordering d s) o 0 (.ok ((orderLayout d s).render o)) := by
  unfold ordering orderLayout
  split
  · refine gives_clause (r := .ok _) "order by" (gives_space.andThen (gives_read.andThen (gives_pure ?_)))
    simp [Layout.render_join, render_nameLayout, String.append_assoc, Function.comp_def]
  · rfl

theorem gives_grouping : Gives (grouping d s) o 0 (.ok ((groupLayout d s).render o)) := by
  unfold grouping groupLayout
  split
  · refine gives_clause (r := .ok _) "group by" (gives_read.andThen (gives_pure ?_))
    simp [Layout.render_join, render_nameLayout, Function.comp_def]
  · rfl

theorem gives_limit : Gives (limit d s) o 0 (.ok ((tailLayout d s).render o)) := by
  unfold limit tailLayout
  cases s.top with
  | none => rfl
  | some rows =>
    cases d.rowLimit with
    | top => rfl
    | limit =>
      refine gives_lineBreak.andThen (gives_space.andThen (gives_pure ?_))
      simp [String.append_assoc]

theorem gives_select : Gives (select d s) o 0 ((selectLayout d s).map (Layout.render o)) := by
  refine (gives_head d s).andThen ((gives_columns d s).andThen ((gives_tables d s).andThen ?_))
  rw [selectLayout, map_bind]
  refine .bind (gives_restriction d s) fun filter => ?_
  refine (gives_ordering d s).andThen ((gives_grouping d s).andThen ((gives_limit d s).andThen ?_))
  exact gives_pure (by simp only [Layout.render_append])

end Formatter

/-- The formatter writes the layout of the statement, rendered with its options. -/
theorem selectText_eq_render (d : Dialect) (o : LayoutOptions) (s : Select) :
    selectText d o s = (selectLayout d s).map (Layout.render o) :=
  congrArg Prod.fst (Formatter.gives_select d s)

theorem selectText_eq_ok {d : Dialect} {o : LayoutOptions} {s : Select} {t : String} :
    selectText d o s = .ok t ↔ ∃ l, selectLayout d s = .ok l ∧ l.render o = t := by
  rw [selectText_eq_render, Fallible.map_eq_ok]

end FetchQuery.Sql
