import FetchQuery.Proofs.Readable
import FetchQuery.Proofs.StatementText

namespace FetchQuery.Sql

open Layout (ofText)
open Statement
open Fallible

def projected (s : Select) : List Column :=
  if s.columns.isEmpty then [Column.wildcard ""] else s.columns

structure JoinOutline where
  kind : JoinKind
  table : String
  source : String
  target : String
  keys : List KeyPair

/-- What there is to see in a statement, where columns and filters are seen as their texts. -/
structure Outline where
  distinct : Bool
  top : Option UInt32
  columns : List String
  table : String
  /-- The name by which other tables are joined to the first one. -/
  source : Option String
  joins : List JoinOutline
  filter : Option (Except Fault String)
  orderBy : List (String × Direction)
  groupBy : List String

def joinOutline (j : Join) : JoinOutline :=
  ⟨j.kind, j.target.name, j.source.exposed, j.target.exposed, j.keys⟩

def outline (d : Dialect) (s : Select) : Outline where
  distinct := s.distinct
  top := s.top
  columns := (projected s).map fun c => (columnLayout d (ambientName s) c).render .compact
  table := s.source.name
  source := if s.hasJoins then some s.source.exposed else none
  joins := s.joins.map joinOutline
  filter := s.specifiedFilter?.map (filterText d .compact (ambientName s))
  orderBy := s.orderBy.map fun o =>
    ((nameLayout d (ambientName s) o.column).render .compact, o.direction)
  groupBy := s.groupBy.map fun n => (nameLayout d (ambientName s) n).render .compact

theorem Piece.chars_compact (p : Piece) : p.chars .compact =
    match p with
    | .text s => s.toList
    | .space | .lineBreak _ => [' ']
    | .columnSeparator | .comma => ", ".toList := by
  cases p <;> rfl

variable {d : Dialect} {o : LayoutOptions}

/-- Whether a keyword could be mistaken for the text. -/
def isAlphabetic (cs : List Char) : Bool := cs.all Char.isAlpha

theorem isAlphabetic_eq_false {c : Char} {cs : List Char} (hm : c ∈ cs) (hc : c.isAlpha = false) :
    isAlphabetic cs = false :=
  List.all_eq_false.2 ⟨c, hm, by simp [hc]⟩

theorem isAlphabetic_qualified (q : String) {s : String} (h : isAlphabetic s.toList = false) :
    isAlphabetic (qualified q s).toList = false := by
  unfold qualified
  split
  · exact h
  · exact isAlphabetic_eq_false (c := '.') (by simp) rfl

theorem isAlphabetic_column (c : Column) :
    isAlphabetic (if c.isWildcard then c.expression else d.quote c.expression).toList = false := by
  split
  next h =>
    rw [Column.isWildcard, beq_iff_eq] at h
    rw [h]
    rfl
  next =>
    cases d with
    | sqlServer =>
      exact isAlphabetic_eq_false (c := '[') (by simp [Dialect.quote, Text.enclose]) rfl
    | postgres =>
      exact isAlphabetic_eq_false (c := '"') (by simp [Dialect.quote, Text.enclose]) rfl

/-- What stands before the name that a column gets in the result is one word, and no keyword. -/
theorem unnamed_word (ho : Text.isBlank o.spaceChar = true) {ambient : String}
    (ha : isIdentifier ambient = true) {c : Column} (hc : c.unquoted.all isIdentifier = true)
    (hd : c.isAggregate = false → c.distinct = false) :
    Word d ((columnLayout d ambient { c with name := "" }).chars o) ∧
      isAlphabetic ((columnLayout d ambient { c with name := "" }).chars o) = false := by
  simp only [Column.unquoted, List.all_cons, Bool.and_eq_true] at hc
  obtain ⟨hq, hf⟩ := hc
  have hreference := Word.reference (d := d) ha hq
  have hbase := Phrase.argument ho hreference c.distinct
  have hunnamed : ({ c with name := "" } : Column).hasName = false := rfl
  rw [columnLayout, hunnamed]
  simp only [Bool.false_eq_true, if_false, List.append_nil]
  cases hfn : c.function? with
  | none =>
    have hdistinct : c.distinct = false := hd (by rw [Column.isAggregate, hfn]; rfl)
    have hfn' : ({ c with name := "" } : Column).function? = none := hfn
    rw [hfn']
    simp only [hdistinct, Bool.false_eq_true, if_false, List.nil_append, Layout.chars_ofText]
    exact ⟨hreference, isAlphabetic_qualified _ (isAlphabetic_column c)⟩
  | some a =>
    have hfn' : ({ c with name := "" } : Column).function? = some a := hfn
    obtain ⟨he, _⟩ := Option.filter_eq_some_iff.1 hfn
    rw [he, Option.toList_some, List.all_cons, Bool.and_eq_true] at hf
    rw [hfn']
    exact ⟨Word.aggregatedLayout hf.1 hbase.closed,
      isAlphabetic_eq_false (c := '(') (by simp [aggregatedLayout]) rfl⟩

theorem chars_columnLayout (ambient : String) (c : Column) :
    (columnLayout d ambient c).chars .compact =
      (columnLayout d ambient { c with name := "" }).chars .compact ++
        if c.hasName then " as ".toList ++ (literal c.name).toList else [] := by
  rw [columnLayout_eq_unnamed d ambient c, Layout.chars_append]
  split <;> simp [Piece.chars_compact]

theorem Layout.render_inj {l m : Layout} (h : l.chars o = m.chars o) : l.render o = m.render o := by
  rw [← String.toList_inj, toList_render, toList_render, h]

/-- The texts of a statement that stand in it without quotes are identifiers, no column is distinct by
itself, no join is without keys, and the conditions can be written. -/
structure Legible (d : Dialect) (s : Select) : Prop where
  ambient : isIdentifier (ambientName s) = true
  columns : ∀ c ∈ s.columns, c.unquoted.all isIdentifier = true
  distinct : ∀ c ∈ s.columns, c.isAggregate = false → c.distinct = false
  joins : ∀ j ∈ s.joins,
    isIdentifier j.source.exposed = true ∧ isIdentifier j.target.exposed = true
  keys : ∀ j ∈ s.joins, j.keys ≠ []
  conditions : ∀ f, s.filter = some f →
    ∀ c ∈ f.allConditions, c.column.unquoted.all isIdentifier = true
  orderBy : ∀ r ∈ s.orderBy, isIdentifier r.column.aliasName = true
  groupBy : ∀ n ∈ s.groupBy, isIdentifier n.aliasName = true
  filter : ∃ l, whereLayout d s = .ok l

theorem column_readable :
    Readable (fun p : String × Column => (columnLayout d p.1 p.2).chars .compact)
      (fun p => (columnLayout d p.1 p.2).render .compact)
      (fun p => isIdentifier p.1 = true ∧ p.2.unquoted.all isIdentifier = true ∧
        (p.2.isAggregate = false → p.2.distinct = false)) (Continues [", ", " from "]) := by
  have hcolumn : Readable
      (fun p : String × Column => (columnLayout d p.1 { p.2 with name := "" }).chars .compact)
      (fun p => (columnLayout d p.1 { p.2 with name := "" }).chars .compact)
      (fun p => isIdentifier p.1 = true ∧ p.2.unquoted.all isIdentifier = true ∧
        (p.2.isAggregate = false → p.2.distinct = false)) (Continues [" as ", ", ", " from "]) := by
    apply word_readable (d := d) _ (by decide)
    rintro p ⟨ha, hc, hd⟩
    exact (unnamed_word (by decide) ha hc hd).1.carries
  have h := hcolumn.append (.optional (fun p => p.2.hasName) " as ".toList
    (word_readable [", ", " from "] (by decide) fun p _ => (Word.ofLiteral (d := d) p.2.name).carries)
    fun r hr => hr.not_prefix (by decide)) fun p r _ hr => hr.optional _
  simp only [← chars_columnLayout] at h
  exact h.text.see fun _ _ _ _ he => Layout.render_inj he

theorem Legible.projected {s : Select} (hs : Legible d s) : projected s ≠ [] ∧ ∀ c ∈ projected s,
    c.unquoted.all isIdentifier = true ∧ (c.isAggregate = false → c.distinct = false) := by
  unfold Sql.projected
  split
  next => simp [Column.wildcard, Column.unquoted, isIdentifier]
  next hn => exact ⟨by simpa using hn, fun c hc => ⟨hs.columns c hc, hs.distinct c hc⟩⟩

theorem columns_readable :
    Readable (fun s => ", ".toList.intercalate
        ((projected s).map fun c => (columnLayout d (ambientName s) c).chars .compact))
      (fun s => (projected s).map fun c => (columnLayout d (ambientName s) c).render .compact)
      (Legible d) (Continues [" from "]) := by
  have hlegible : ∀ s, Legible d s → (projected s).map (fun c => (ambientName s, c)) ≠ [] ∧
      ∀ p ∈ (projected s).map (fun c => (ambientName s, c)), isIdentifier p.1 = true ∧
        p.2.unquoted.all isIdentifier = true ∧ (p.2.isAggregate = false → p.2.distinct = false) := by
    intro s hs
    obtain ⟨hn, hc⟩ := hs.projected
    refine ⟨by simpa using hn, fun p hp => ?_⟩
    obtain ⟨c, hm, rfl⟩ := List.mem_map.1 hp
    exact ⟨hs.ambient, hc c hm⟩
  have h := ((column_readable (d := d)).intercalate ", " (by decide)).comap _ hlegible
  simp only [List.map_map, Function.comp_def] at h
  exact h

def IsNamed (j : Join) : Prop :=
  isIdentifier j.source.exposed = true ∧ isIdentifier j.target.exposed = true

def keyChars (d : Dialect) (j : Join) (k : KeyPair) : List Char :=
  (j.source.exposed ++ "." ++ d.quote k.source ++ " = " ++ j.target.exposed ++ "." ++
    d.quote k.target).toList

theorem key_readable :
    Readable (fun p : Join × KeyPair => keyChars d p.1 p.2) (fun p => (p.1.source.exposed, p.2))
      (fun p => IsNamed p.1) (Continues [" and ", ")"]) := by
  have h : Readable (fun p : Join × KeyPair => _) _ (fun p => IsNamed p.1) _ :=
    .andThen "." (identifier_readable ["."] (by decide) fun _ hp => hp.1)
      (.andThen " = " (quote_readable (d := d) (fun p => p.2.source) [" = "] (by decide))
        (.andThen "." (identifier_readable ["."] (by decide) fun _ hp => hp.2)
          (quote_readable (d := d) (fun p => p.2.target) [" and ", ")"] (by decide))))
  simp only [keyChars, String.toList_append, List.append_assoc]
  apply h.see
  rintro ⟨j, source, target⟩ ⟨j', source', target'⟩ _ _ hab
  simp only [Prod.mk.injEq] at hab ⊢
  obtain ⟨hj, rfl, _, rfl⟩ := hab
  exact ⟨hj, rfl⟩

/-- The keys of a join tell to which table it is joined, since there is one at least. -/
theorem keys_readable :
    Readable (fun j : Join => " and ".toList.intercalate (j.keys.map (keyChars d j)))
      (fun j => (j.source.exposed, j.keys)) (fun j => IsNamed j ∧ j.keys ≠ []) (Continues [")"]) := by
  have hkeys : ∀ j : Join, IsNamed j ∧ j.keys ≠ [] → j.keys.map (fun k => (j, k)) ≠ [] ∧
      ∀ p ∈ j.keys.map (fun k => (j, k)), IsNamed p.1 := by
    rintro j ⟨hj, hn⟩
    refine ⟨by simpa using hn, fun p hp => ?_⟩
    obtain ⟨k, _, rfl⟩ := List.mem_map.1 hp
    exact hj
  have h := ((key_readable (d := d)).intercalate " and " (by decide)).comap _ hkeys
  simp only [List.map_map, Function.comp_def] at h
  apply h.see
  rintro j j' ⟨_, hn⟩ ⟨_, hn'⟩ hab
  obtain ⟨k, ks, hk⟩ := List.exists_cons_of_ne_nil hn
  obtain ⟨k', ks', hk'⟩ := List.exists_cons_of_ne_nil hn'
  -- the source is seen in the first key
  have hsource : j.source.exposed = j'.source.exposed := by
    rw [hk, hk', List.map_cons, List.map_cons] at hab
    exact congrArg Prod.fst (List.cons.inj hab).1
  have hkeys : j.keys = j'.keys := by
    simpa [List.map_map, Function.comp_def] using congrArg (List.map Prod.snd) hab
  rw [hsource, hkeys]

theorem joinKeyword_inj : ∀ k l, (joinKeyword k).toList <+: (joinKeyword l).toList → k = l := by
  intro k l h
  cases k <;> cases l <;> first | rfl | exact absurd h (by decide)

theorem chars_joinLayout (j : Join) :
    (joinLayout d j).chars .compact = (joinKeyword j.kind).toList ++ (" join ".toList ++
      ((d.quote j.target.name).toList ++ (" ".toList ++ (j.target.exposed.toList ++ (" on (".toList ++
        (" and ".toList.intercalate (j.keys.map (keyChars d j)) ++ ")".toList)))))) := by
  unfold keyChars
  simp [joinLayout, Layout.chars_join, Piece.chars_compact, Function.comp_def]

theorem join_readable {ends : List Char → Prop} :
    Readable (fun j => (joinLayout d j).chars .compact) joinOutline
      (fun j => IsNamed j ∧ j.keys ≠ []) ends := by
  have h : Readable (fun j : Join => _) _ (fun j => IsNamed j ∧ j.keys ≠ []) ends :=
    .andThen " join " (keyword_readable joinKeyword_inj (fun j => j.kind))
      (.andThen " " (quote_readable (d := d) (fun j => j.target.name) [" "] (by decide))
        (.andThen " on (" (identifier_readable [" on ("] (by decide) fun _ hj => hj.1.2)
          (.before ")" (keys_readable (d := d)))))
  simp only [chars_joinLayout]
  apply h.see
  rintro j j' _ _ hab
  simp only [Prod.mk.injEq] at hab
  obtain ⟨hkind, hname, htarget, hsource, hkeys⟩ := hab
  rw [joinOutline, joinOutline, hkind, hname, htarget, hsource, hkeys]

def clauseOpenings : List String := [" where ", " order by ", " group by ", " limit "]

def joinOpenings : List String :=
  [" inner join ", " left outer join ", " right outer join ", " full outer join "]

theorem joinOpenings_prefix (j : Join) :
    ∃ start ∈ joinOpenings, start.toList <+: " ".toList ++ (joinLayout d j).chars .compact := by
  refine ⟨" " ++ joinKeyword j.kind ++ " join ", by cases j.kind <;> decide, ?_⟩
  simp only [chars_joinLayout, String.toList_append, List.append_assoc, List.prefix_append_right_inj]
  exact List.prefix_append _ _

theorem joins_readable :
    Readable (List.flatMap fun j => " ".toList ++ (joinLayout d j).chars .compact)
      (List.map joinOutline) (fun js => ∀ j ∈ js, IsNamed j ∧ j.keys ≠ [])
      (Continues clauseOpenings) :=
  .many joinOpenings (fun j _ => joinOpenings_prefix j) (by decide) (join_readable.after _)

theorem chars_fromLayout (s : Select) :
    (fromLayout d s).chars .compact = " from ".toList ++ ((d.quote s.source.name).toList ++
      if s.hasJoins then " as ".toList ++ ((ambientName s).toList ++
        s.joins.flatMap fun j => " ".toList ++ (joinLayout d j).chars .compact) else []) := by
  simp only [fromLayout, Layout.chars_append]
  split
  next h =>
    have hn : s.joins ≠ [] := by simpa [Select.hasJoins] using h
    obtain ⟨j, js, hj⟩ := List.exists_cons_of_ne_nil hn
    simp [Layout.chars_join, Piece.chars_compact, hj, Readable.intercalate_cons, List.flatMap_map]
  next => simp [Piece.chars_compact]

theorem from_readable :
    Readable (fun s => (fromLayout d s).chars .compact)
      (fun s => (s.source.name,
        if s.hasJoins then some (ambientName s, s.joins.map joinOutline) else none))
      (Legible d) (Continues clauseOpenings) := by
  have hjoins : ∀ s, Legible d s → ∀ j ∈ s.joins, IsNamed j ∧ j.keys ≠ [] :=
    fun s hs j hj => ⟨hs.joins j hj, hs.keys j hj⟩
  have hsource : Readable (fun s => (ambientName s).toList ++
        s.joins.flatMap fun j => " ".toList ++ (joinLayout d j).chars .compact)
      (fun s => (ambientName s, s.joins.map joinOutline))
      (fun s => Legible d s ∧ s.hasJoins = true) (Continues clauseOpenings) := by
    have hname := identifier_readable (joinOpenings ++ clauseOpenings) (by decide)
      fun s (hs : Legible d s ∧ s.hasJoins = true) => hs.1.ambient
    refine hname.append (joins_readable.comap (fun s => s.joins) fun s hs => hjoins s hs.1) ?_
    intro s r hs hr
    exact Readable.continues_flatMap (fun j _ => joinOpenings_prefix j) hr (hjoins s hs.1)
  simp only [chars_fromLayout]
  apply Readable.after
  exact Readable.append (quote_readable _ (" as " :: clauseOpenings) (by decide))
    (.optional _ _ hsource fun r hr => hr.not_prefix (by decide)) fun p r _ hr => hr.optional _

/-- What the tables show is known whether or not there are joins. -/
theorem joins_eq {s s' : Select}
    (h : (if s.hasJoins then some (ambientName s, s.joins.map joinOutline) else none) =
      if s'.hasJoins then some (ambientName s', s'.joins.map joinOutline) else none) :
    (if s.hasJoins then some s.source.exposed else none) =
        (if s'.hasJoins then some s'.source.exposed else none) ∧
      s.joins.map joinOutline = s'.joins.map joinOutline := by
  cases hj : s.joins <;> cases hj' : s'.joins <;> simp_all [Select.hasJoins, ambientName]

def filterChars (d : Dialect) (s : Select) : List Char :=
  match s.specifiedFilter?.map (filterText d .compact (ambientName s)) with
  | some (.ok t) => t.toList
  | _ => []

theorem filterText_eq_ok {s : Select} (hs : Legible d s) {f : Filter}
    (hf : s.specifiedFilter? = some f) : ∃ l, filterLayout d (ambientName s) f = .ok l := by
  obtain ⟨l, hl⟩ := hs.filter
  rw [whereLayout, hf] at hl
  obtain ⟨m, hm, _⟩ := bind_eq_ok.1 hl
  exact ⟨m, hm⟩

def whereChars (d : Dialect) (s : Select) : List Char :=
  if s.specifiedFilter?.isSome then " where ".toList ++ filterChars d s else []

theorem chars_whereLayout {s : Select} {l : Layout} (h : whereLayout d s = .ok l) :
    l.chars .compact = whereChars d s := by
  unfold whereLayout at h
  unfold whereChars filterChars
  split at h
  next f hf =>
    obtain ⟨m, hm, h⟩ := bind_eq_ok.1 h
    obtain rfl := Except.ok.inj h
    simp [hf, filterText_eq_render, hm, Except.map, Piece.chars_compact, Layout.toList_render]
  next hf =>
    obtain rfl := Except.ok.inj h
    simp [hf]

theorem where_readable :
    Readable (whereChars d) (fun s => s.specifiedFilter?.map (filterText d .compact (ambientName s)))
      (Legible d) (Continues [" order by ", " group by ", " limit "]) := by
  have hfilter : ∀ s, Legible d s → s.specifiedFilter?.isSome = true →
      ∃ t, s.specifiedFilter?.map (filterText d .compact (ambientName s)) = some (.ok t) ∧
        Word d t.toList := by
    intro s hs hf
    obtain ⟨f, hf⟩ := Option.isSome_iff_exists.1 hf
    obtain ⟨l, hl⟩ := filterText_eq_ok hs hf
    refine ⟨l.render .compact, by simp [hf, filterText_eq_render, hl, Except.map], ?_⟩
    rw [Layout.toList_render]
    have hconditions := hs.conditions f (Option.filter_eq_some_iff.1 hf).1
    exact filterLayout_word (by decide) hs.ambient f hconditions l hl
  -- a filter in its parentheses is one word, whatever stands in it
  have hword : Readable (filterChars d) (filterChars d)
      (fun s => Legible d s ∧ s.specifiedFilter?.isSome = true)
      (Continues [" order by ", " group by ", " limit "]) := by
    apply word_readable (d := d) _ (by decide)
    rintro s ⟨hs, hf⟩
    obtain ⟨t, ht, hw⟩ := hfilter s hs hf
    rw [filterChars, ht]
    exact hw.carries
  have htext : Readable (filterChars d)
      (fun s => s.specifiedFilter?.map (filterText d .compact (ambientName s)))
      (fun s => Legible d s ∧ s.specifiedFilter?.isSome = true)
      (Continues [" order by ", " group by ", " limit "]) := by
    apply hword.see
    rintro s s' ⟨hs, hf⟩ ⟨hs', hf'⟩ he
    obtain ⟨t, ht, _⟩ := hfilter s hs hf
    obtain ⟨t', ht', _⟩ := hfilter s' hs' hf'
    rw [filterChars, filterChars, ht, ht'] at he
    rw [ht, ht', String.toList_inj.1 he]
  apply (htext.optional (fun s : Select => s.specifiedFilter?.isSome) " where ".toList
    fun r hr => hr.not_prefix (by decide)).see
  intro s s' _ _ he
  cases hf : s.specifiedFilter? <;> cases hf' : s'.specifiedFilter? <;> simp_all

theorem name_readable (openings : List String)
    (hf : openings.all (·.toList.head?.any isFill) = true) :
    Readable (fun p : String × AliasedName => (nameLayout d p.1 p.2).chars .compact)
      (fun p => (nameLayout d p.1 p.2).render .compact)
      (fun p => isIdentifier p.1 = true ∧ isIdentifier p.2.aliasName = true)
      (Continues openings) := by
  have h := word_readable (d := d) openings hf fun (p : String × AliasedName)
    (hp : isIdentifier p.1 = true ∧ isIdentifier p.2.aliasName = true) =>
    (nameLayout_word (o := .compact) hp.1 hp.2).carries
  exact h.see fun _ _ _ _ he => Layout.render_inj he

theorem directionKeyword_inj :
    ∀ k l : Direction, k.keyword.toList <+: l.keyword.toList → k = l := by
  intro k l h
  cases k <;> cases l <;> first | rfl | exact absurd h (by decide)

theorem chars_orderLayout (s : Select) :
    (orderLayout d s).chars .compact =
      if s.hasOrderBy then " order by ".toList ++ ", ".toList.intercalate (s.orderBy.map fun r =>
        (nameLayout d (ambientName s) r.column).chars .compact ++
          (" ".toList ++ r.direction.keyword.toList)) else [] := by
  unfold orderLayout
  split <;> simp [Layout.chars_join, Piece.chars_compact, Function.comp_def]

theorem order_readable :
    Readable (fun s => (orderLayout d s).chars .compact)
      (fun s => s.orderBy.map fun r =>
        ((nameLayout d (ambientName s) r.column).render .compact, r.direction))
      (Legible d) (Continues [" group by ", " limit "]) := by
  have hitem : Readable (fun p : String × Order => (nameLayout d p.1 p.2.column).chars .compact ++
        (" ".toList ++ p.2.direction.keyword.toList))
      (fun p => ((nameLayout d p.1 p.2.column).render .compact, p.2.direction))
      (fun p => isIdentifier p.1 = true ∧ isIdentifier p.2.column.aliasName = true)
      (Continues [", ", " group by ", " limit "]) := by
    have hname := (name_readable (d := d) [" "] (by decide)).comap
      (fun p : String × Order => (p.1, p.2.column)) fun _ hp => hp
    exact hname.andThen " "
      (keyword_readable directionKeyword_inj fun p : String × Order => p.2.direction)
  have horder : ∀ s, Legible d s → ∀ p ∈ s.orderBy.map (fun r => (ambientName s, r)),
      isIdentifier p.1 = true ∧ isIdentifier p.2.column.aliasName = true := by
    intro s hs p hp
    obtain ⟨r, hr, rfl⟩ := List.mem_map.1 hp
    exact ⟨hs.ambient, hs.orderBy r hr⟩
  have h := hitem.clause " order by " ", " (by decide) (by decide) _ horder
  simp only [List.map_map, Function.comp_def, List.isEmpty_map] at h
  simp only [chars_orderLayout, Select.hasOrderBy]
  exact h

theorem chars_groupLayout (s : Select) :
    (groupLayout d s).chars .compact =
      if s.hasGroupBy then " group by ".toList ++ ", ".toList.intercalate
        (s.groupBy.map fun n => (nameLayout d (ambientName s) n).chars .compact) else [] := by
  unfold groupLayout
  split <;> simp [Layout.chars_join, Piece.chars_compact, Function.comp_def]

theorem group_readable :
    Readable (fun s => (groupLayout d s).chars .compact)
      (fun s => s.groupBy.map fun n => (nameLayout d (ambientName s) n).render .compact)
      (Legible d) (Continues [" limit "]) := by
  have hgroup : ∀ s, Legible d s → ∀ p ∈ s.groupBy.map (fun n => (ambientName s, n)),
      isIdentifier p.1 = true ∧ isIdentifier p.2.aliasName = true := by
    intro s hs p hp
    obtain ⟨n, hn, rfl⟩ := List.mem_map.1 hp
    exact ⟨hs.ambient, hs.groupBy n hn⟩
  have h := (name_readable (d := d) [", ", " limit "] (by decide)).clause " group by " ", "
    (by decide) (by decide) _ hgroup
  simp only [List.map_map, Function.comp_def, List.isEmpty_map] at h
  simp only [chars_groupLayout, Select.hasGroupBy]
  exact h

/-- The number of rows, in the dialects that write it at the place. -/
def rowsAt (d : Dialect) (place : RowLimit) (s : Select) : Option UInt32 :=
  if d.rowLimit = place then s.top else none

theorem chars_tailLayout (s : Select) :
    (tailLayout d s).chars .compact = if (rowsAt d .limit s).isSome then
      " limit ".toList ++ (toString ((rowsAt d .limit s).getD 0).toNat).toList else [] := by
  cases d <;> cases ht : s.top <;>
    simp [tailLayout, rowsAt, Dialect.rowLimit, ht, Piece.chars_compact]

theorem eq_of_rows {x y : Option UInt32}
    (h : (if x.isSome then some (x.getD 0).toNat else none) =
      if y.isSome then some (y.getD 0).toNat else none) : x = y := by
  cases x <;> cases y <;> simp_all [UInt32.toNat_inj]

theorem tail_readable :
    Readable (fun s => (tailLayout d s).chars .compact) (rowsAt d .limit) (Legible d)
      (Continues []) := by
  simp only [chars_tailLayout]
  apply (Readable.optional _ _ (number_readable _ [] (by decide))
    fun r hr => hr.not_prefix (by decide)).see
  exact fun _ _ _ _ he => eq_of_rows he

/-- A word follows that is no keyword, as the first column is. -/
def StartsColumn (d : Dialect) (rest : List Char) : Prop :=
  ∃ w more, rest = w ++ more ∧ Word d w ∧ isAlphabetic w = false ∧
    Continues [" as ", ", ", " from "] more

theorem StartsColumn.not_prefix (keyword : String) (hk : isAlphabetic keyword.toList = true)
    {rest : List Char} (h : StartsColumn d rest) : ¬ (keyword ++ " ").toList <+: rest := by
  rintro ⟨t, ht⟩
  obtain ⟨w, more, rfl, hw, ha, hm⟩ := h
  have hkeyword : Carries d endsWord Reading.isCalm Reading.isSettled 0 0 keyword.toList :=
    (Carries.bare_or_nil (p := Char.isAlpha) (by decide) hk).ofSettled
  -- both are words with a fill character after them, so the column would be the keyword
  have hread : Readable id id (Carries d endsWord Reading.isCalm Reading.isSettled 0 0)
      (Continues [" ", " as ", ", ", " from "]) := word_readable _ (by decide) fun _ h => h
  rw [String.toList_append, List.append_assoc] at ht
  obtain ⟨rfl, _⟩ := hread hkeyword hw.carries (.of_mem List.mem_cons_self t)
    (hm.mono (List.subset_cons_self _ _)) ht
  rw [id, hk] at ha
  cases ha

theorem startsColumn_columns {s : Select} (hs : Legible d s) {r : List Char}
    (hr : Continues [" from "] r) : StartsColumn d (", ".toList.intercalate
      ((projected s).map fun c => (columnLayout d (ambientName s) c).chars .compact) ++ r) := by
  obtain ⟨hn, hc⟩ := hs.projected
  obtain ⟨c, cs, he⟩ := List.exists_cons_of_ne_nil hn
  obtain ⟨hi, hd⟩ := hc c (he ▸ List.mem_cons_self)
  obtain ⟨hw, ha⟩ := unnamed_word (d := d) (o := .compact) (by decide) hs.ambient hi hd
  have hcomma : ∀ x : List Char, True → ∃ start ∈ [", "], start.toList <+: ", ".toList ++ x :=
    fun x _ => ⟨", ", List.mem_cons_self, List.prefix_append _ _⟩
  have hcolumns : Continues [", ", " from "] ((cs.map fun c =>
      (columnLayout d (ambientName s) c).chars .compact).flatMap (", ".toList ++ ·) ++ r) :=
    Readable.continues_flatMap hcomma hr fun _ _ => trivial
  refine ⟨_, _, ?_, hw, ha, hcolumns.optional (p := c.hasName) (literal c.name).toList⟩
  rw [he, List.map_cons, Readable.intercalate_cons, chars_columnLayout, List.append_assoc,
    List.append_assoc]

def topChars (d : Dialect) (s : Select) : List Char :=
  if (rowsAt d .top s).isSome then
    "top ".toList ++ ((toString ((rowsAt d .top s).getD 0).toNat).toList ++ " ".toList) else []

theorem top_readable : Readable (topChars d) (rowsAt d .top) (Legible d) (StartsColumn d) := by
  apply (Readable.optional (fun s => (rowsAt d .top s).isSome) "top ".toList
    (.before " " (number_readable (fun s => ((rowsAt d .top s).getD 0).toNat) [" "] (by decide)))
    fun r hr => hr.not_prefix "top" (by decide)).see
  exact fun _ _ _ _ he => eq_of_rows he

/-- The start of a statement, with the blanks after its words instead of before them. -/
theorem chars_headLayout (s : Select) :
    (headLayout d s).chars .compact ++ (columnsLayout d s).chars .compact =
      "select ".toList ++ ((if s.distinct then "distinct ".toList ++ [] else []) ++ topChars d s ++
        ", ".toList.intercalate
          ((projected s).map fun c => (columnLayout d (ambientName s) c).chars .compact)) := by
  cases d <;> cases hd : s.distinct <;> cases ht : s.top <;>
    simp [headLayout, columnsLayout, projected, topChars, rowsAt, Dialect.rowLimit, hd, ht,
      Piece.chars_compact, Layout.chars_join, Function.comp_def]

theorem head_readable :
    Readable (fun s => (headLayout d s).chars .compact ++ (columnsLayout d s).chars .compact)
      (fun s => (s.distinct, rowsAt d .top s, (projected s).map fun c =>
        (columnLayout d (ambientName s) c).render .compact)) (Legible d) (Continues [" from "]) := by
  have hdistinct : Readable (fun s : Select => if s.distinct then "distinct ".toList ++ [] else [])
      (fun s => if s.distinct then some () else none) (Legible d)
      (fun r => "top ".toList <+: r ∨ StartsColumn d r) := by
    refine .optional _ _ (fun _ _ _ _ _ _ _ _ he => ⟨rfl, he⟩) ?_
    rintro r (⟨t, rfl⟩ | hr)
    · simp
    · exact hr.not_prefix "distinct" (by decide)
  have htop : ∀ s r, Legible d s → StartsColumn d r →
      "top ".toList <+: topChars d s ++ r ∨ StartsColumn d (topChars d s ++ r) := by
    intro s r _ hr
    unfold topChars
    split
    · left
      rw [List.append_assoc]
      exact List.prefix_append _ _
    · exact .inr hr
  have h := (hdistinct.append top_readable htop).append columns_readable
    fun s r hs hr => startsColumn_columns hs hr
  simp only [chars_headLayout]
  apply (h.after "select ".toList).see
  intro s s' _ _ he
  simp only [Prod.mk.injEq] at he ⊢
  obtain ⟨⟨hd, ht⟩, hc⟩ := he
  have hbool : ∀ a b : Bool,
      (if a then some () else none) = (if b then some () else none) → a = b := by decide
  exact ⟨hbool _ _ hd, ht, hc⟩

def selectChars (d : Dialect) (s : Select) : List Char :=
  (headLayout d s).chars .compact ++ (columnsLayout d s).chars .compact ++
    (fromLayout d s).chars .compact ++ whereChars d s ++ (orderLayout d s).chars .compact ++
    (groupLayout d s).chars .compact ++ (tailLayout d s).chars .compact

theorem select_readable : Readable (selectChars d) (outline d) (Legible d) (Continues []) := by
  have hfrom : ∀ s r, Legible d s → Continues clauseOpenings r →
      Continues [" from "] ((fromLayout d s).chars .compact ++ r) := by
    intro s r _ _
    rw [chars_fromLayout, List.append_assoc]
    exact .of_mem List.mem_cons_self _
  have horder : ∀ s r, Legible d s → Continues [" group by ", " limit "] r →
      Continues [" order by ", " group by ", " limit "] ((orderLayout d s).chars .compact ++ r) := by
    intro s r _ hr
    rw [chars_orderLayout]
    exact hr.optional _
  have hgroup : ∀ s r, Legible d s → Continues [" limit "] r →
      Continues [" group by ", " limit "] ((groupLayout d s).chars .compact ++ r) := by
    intro s r _ hr
    rw [chars_groupLayout]
    exact hr.optional _
  have htail : ∀ s r, Legible d s → Continues [] r →
      Continues [" limit "] ((tailLayout d s).chars .compact ++ r) := by
    intro s r _ hr
    rw [chars_tailLayout]
    exact hr.optional _
  have h := (((((head_readable (d := d)).append from_readable hfrom).append where_readable
    fun s r _ hr => hr.optional _).append order_readable horder).append group_readable hgroup).append
    tail_readable htail
  apply h.see
  intro s s' _ _ he
  simp only [Prod.mk.injEq] at he
  obtain ⟨⟨⟨⟨⟨hhead, hfrom⟩, hfilter⟩, horder⟩, hgroup⟩, hlimit⟩ := he
  obtain ⟨⟨hdistinct, htop, hcolumns⟩, htable, hjoins⟩ := And.intro hhead hfrom
  -- the number of rows is seen at one end, and nothing is seen at the other
  have hrows : s.top = s'.top := by
    cases d with
    | sqlServer => exact htop
    | postgres => exact hlimit
  obtain ⟨hsource, hjoins⟩ := joins_eq hjoins
  simp only [outline, hdistinct, hrows, hcolumns, htable, hsource, hjoins, hfilter, horder, hgroup]

theorem Legible.of_selectText {s : Select} (hnames : (unquoted s).all isIdentifier = true)
    (hdistinct : ∀ c ∈ s.columns, c.isAggregate = false → c.distinct = false)
    (hkeys : ∀ j ∈ s.joins, j.keys ≠ []) {t : String} (h : selectText d .compact s = .ok t) :
    Legible d s ∧ t.toList = selectChars d s := by
  obtain ⟨l, hl, rfl⟩ := selectText_eq_ok.1 h
  obtain ⟨filter, hfilter, hl⟩ := bind_eq_ok.1 hl
  obtain rfl := Except.ok.inj hl
  simp only [unquoted, List.all_cons, List.all_append, List.all_flatMap, List.all_map,
    List.map_append, List.all_eq_true, Bool.and_eq_true, Function.comp_apply,
    Option.mem_toList] at hnames
  obtain ⟨hambient, ⟨⟨hcolumns, hconditions⟩, hjoins⟩, horder, hgroup⟩ := hnames
  constructor
  · exact ⟨hambient, fun c hc => List.all_eq_true.2 (hcolumns c hc), hdistinct,
      fun j hj => ⟨(hjoins j hj).1, (hjoins j hj).2.1⟩, hkeys,
      fun f hf c hc => List.all_eq_true.2 (hconditions f hf c hc), horder, hgroup, filter, hfilter⟩
  · simp only [selectChars, Layout.toList_render, Layout.chars_append, chars_whereLayout hfilter]

theorem selectText_unambiguous (d : Dialect) (s s' : Select) (t : String)
    (hnames : (unquoted s).all isIdentifier = true) (hnames' : (unquoted s').all isIdentifier = true)
    (hdistinct : ∀ c ∈ s.columns, c.isAggregate = false → c.distinct = false)
    (hdistinct' : ∀ c ∈ s'.columns, c.isAggregate = false → c.distinct = false)
    (hkeys : ∀ j ∈ s.joins, j.keys ≠ []) (hkeys' : ∀ j ∈ s'.joins, j.keys ≠ [])
    (h : selectText d .compact s = .ok t) (h' : selectText d .compact s' = .ok t) :
    outline d s = outline d s' := by
  obtain ⟨hs, ht⟩ := Legible.of_selectText hnames hdistinct hkeys h
  obtain ⟨hs', ht'⟩ := Legible.of_selectText hnames' hdistinct' hkeys' h'
  have he : selectChars d s ++ [] = selectChars d s' ++ [] := by rw [← ht, ← ht']
  exact (select_readable hs hs' .nil .nil he).1

def hostileCounts : Select :=
  { hostileNames with columns := hostileNames.columns.map fun c =>
      { c with aggregate := c.aggregate.map aggregateFunction } }

theorem selectText_unambiguous_hostileNames :
    (unquoted hostileNames).all isIdentifier = true ∧
    (unquoted hostileCounts).all isIdentifier = true ∧
    (∀ c ∈ hostileNames.columns, c.isAggregate = false → c.distinct = false) ∧
    (∀ c ∈ hostileCounts.columns, c.isAggregate = false → c.distinct = false) ∧
    (∀ j ∈ hostileNames.joins, j.keys ≠ []) ∧ (∀ j ∈ hostileCounts.joins, j.keys ≠ []) ∧
    ∃ t, selectText .postgres .compact hostileNames = .ok t ∧
      selectText .postgres .compact hostileCounts = .ok t ∧
      outline .postgres hostileNames = outline .postgres hostileCounts := by
  have hnames : (unquoted hostileNames).all isIdentifier = true := by decide
  have hnames' : (unquoted hostileCounts).all isIdentifier = true := by decide
  have hdistinct : ∀ c ∈ hostileNames.columns, c.isAggregate = false → c.distinct = false := by decide
  have hdistinct' : ∀ c ∈ hostileCounts.columns, c.isAggregate = false → c.distinct = false := by
    decide
  have hkeys : ∀ j ∈ hostileNames.joins, j.keys ≠ [] := by decide
  have hkeys' : ∀ j ∈ hostileCounts.joins, j.keys ≠ [] := by decide
  obtain ⟨t, ht⟩ : ∃ t, selectText .postgres .compact hostileNames = .ok t := ⟨_, rfl⟩
  have ht' : selectText .postgres .compact hostileCounts = .ok t := by
    rw [← ht]
    rfl
  exact ⟨hnames, hnames', hdistinct, hdistinct', hkeys, hkeys', t, ht, ht',
    selectText_unambiguous .postgres hostileNames hostileCounts t hnames hnames' hdistinct
      hdistinct' hkeys hkeys' ht ht'⟩

end FetchQuery.Sql
