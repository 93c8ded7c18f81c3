import FetchQuery.Proofs.FilterText

namespace FetchQuery.Text

theorem isBlank_or_mem_dropWhile {c : Char} {cs : List Char} (h : c ∈ cs) :
    isBlank c = true ∨ c ∈ cs.dropWhile isBlank := by
  rw [← List.takeWhile_append_dropWhile (p := isBlank) (l := cs)] at h
  rcases List.mem_append.1 h with h | h
  · exact .inl (List.all_eq_true.1 List.all_takeWhile c h)
  · exact .inr h

theorem isBlank_or_mem_dropBlanks {c : Char} {cs : List Char} (h : c ∈ cs) :
    isBlank c = true ∨ c ∈ dropBlanks cs := by
  rcases isBlank_or_mem_dropWhile h with h | h
  · exact .inl h
  · rw [dropBlanks, dropBlanksEnd, List.mem_reverse]
    exact isBlank_or_mem_dropWhile (List.mem_reverse.2 h)

theorem mem_of_mem_dropBlanksEnd {c : Char} {cs : List Char} (h : c ∈ dropBlanksEnd cs) : c ∈ cs := by
  rw [dropBlanksEnd, List.mem_reverse] at h
  exact List.mem_reverse.1 ((List.dropWhile_sublist isBlank).subset h)

end FetchQuery.Text

namespace FetchQuery.Sql

open Reading (isCalm isSettled)
open Layout (ofText)
open Statement
open Fallible

/-- The fill character is a blank, and the comma is one comma with blanks around it. -/
def LayoutOptions.isSpacing (o : LayoutOptions) : Bool :=
  Text.isBlank o.spaceChar && Text.trim o.comma == ","

/-- The texts that stand in a statement without quotes. -/
def unquoted (s : Select) : List String :=
  ambientName s :: (s.columns.flatMap Column.unquoted ++
    (s.filter.toList.flatMap Filter.allConditions).flatMap (·.column.unquoted) ++
    s.joins.flatMap (fun j => [j.source.exposed, j.target.exposed]) ++
    (s.orderBy.map (·.column) ++ s.groupBy).map (·.aliasName))

def Piece.isGlue : Piece → Bool
  | .text _ => false
  | _ => true

variable {d : Dialect} {o : LayoutOptions}

theorem isBlank_of_isSpacing (ho : o.isSpacing = true) : Text.isBlank o.spaceChar = true := by
  rw [LayoutOptions.isSpacing, Bool.and_eq_true] at ho
  exact ho.1

theorem isFill_comma (ho : o.isSpacing = true) : o.comma.toList ≠ [] ∧ o.comma.toList.all isFill = true := by
  simp only [LayoutOptions.isSpacing, Bool.and_eq_true, beq_iff_eq] at ho
  have hdrop : Text.dropBlanks o.comma.toList = [','] := by
    have h := ho.2
    rw [Text.trim, ← String.toList_inj, String.toList_ofList] at h
    exact h
  constructor
  · intro he
    rw [he] at hdrop
    cases hdrop
  · rw [List.all_eq_true]
    intro c hc
    rcases Text.isBlank_or_mem_dropBlanks hc with h | h
    · simp [isFill, h]
    · rw [hdrop, List.mem_singleton] at h
      simp [isFill, h]

theorem isFill_breakChars (ho : o.isSpacing = true) (level : Nat) :
    Piece.breakChars o level ≠ [] ∧ (Piece.breakChars o level).all isFill = true := by
  have hs : isFill o.spaceChar = true := by simp [isFill, isBlank_of_isSpacing ho]
  have hn : isFill '\n' = true := by decide
  unfold Piece.breakChars
  split
  · exact ⟨List.cons_ne_nil _ _, by simp [hs, hn]⟩
  · exact ⟨List.cons_ne_nil _ _, by simp [hs]⟩

theorem isFill_glue (ho : o.isSpacing = true) {p : Piece} (hp : p.isGlue = true) :
    p.chars o ≠ [] ∧ (p.chars o).all isFill = true := by
  cases p with
  | text s => cases hp
  | space => simp [Piece.chars, isFill, isBlank_of_isSpacing ho]
  | lineBreak level => exact isFill_breakChars ho level
  | comma => exact isFill_comma ho
  | columnSeparator =>
    obtain ⟨hn, hc⟩ := isFill_comma ho
    obtain ⟨hb, hf⟩ := isFill_breakChars ho 1
    rw [List.all_eq_true] at hc
    simp only [Piece.chars, Piece.columnSeparatorChars]
    split
    · refine ⟨by simp [hb], ?_⟩
      rw [List.all_append, hf, Bool.and_true, List.all_eq_true]
      exact fun c hm => hc c (Text.mem_of_mem_dropBlanksEnd hm)
    · exact ⟨hn, List.all_eq_true.2 hc⟩

theorem carries_glue (ho : o.isSpacing = true) {p : Piece} (hp : p.isGlue = true) :
    Carries d endsStatement isSettled isCalm 0 0 (p.chars o) := by
  obtain ⟨hn, hf⟩ := isFill_glue ho hp
  apply Carries.of_isPlain hn
  rw [List.all_eq_true] at hf ⊢
  exact fun c hc => isPlain_of_class (by decide) (hf c hc)

/-- A text that closes what it opens and can follow every such text. -/
def Follows (d : Dialect) (cs : List Char) : Prop := Carries d endsStatement isSettled isSettled 0 0 cs

theorem Follows.nil : Follows d [] := Carries.nil fun _ hr => hr

namespace Closed

theorem before {cs ds : List Char} (h : Closed d cs) (h' : Follows d ds) : Closed d (cs ++ ds) :=
  Carries.append h h'

theorem led (ho : o.isSpacing = true) {p : Piece} (hp : p.isGlue = true) {l : Layout}
    (h : Closed d (l.chars o)) : Follows d (Layout.chars o (p :: l)) :=
  (carries_glue ho hp).append h

theorem text {s : String} (h : Closed d s.toList) {l : Layout} (h' : Follows d (l.chars o)) :
    Closed d (Layout.chars o (.text s :: l)) :=
  h.before h'

theorem ofIdentifier {s : String} (h : isIdentifier s = true) : Closed d s.toList :=
  Carries.closed (Carries.bare_or_nil isBare_isIdentifierChar h).ofSettled

theorem join (ho : o.isSpacing = true) {p : Piece} (hp : p.isGlue = true) {parts : List Layout}
    (h : ∀ l ∈ parts, Closed d (l.chars o)) : Closed d ((Layout.join [p] parts).chars o) := by
  rw [Layout.chars_join]
  apply Closed.intercalate
  · simpa using carries_glue ho hp
  · intro q hq
    obtain ⟨l, hl, rfl⟩ := List.mem_map.1 hq
    exact h l hl

end Closed

theorem nameLayout_word {ambient : String} (ha : isIdentifier ambient = true) {n : AliasedName}
    (hn : isIdentifier n.aliasName = true) : Word d ((nameLayout d ambient n).chars o) := by
  have hq : isIdentifier (if n.hasAlias then n.aliasName else ambient) = true := by
    split
    · exact hn
    · exact ha
  rw [nameLayout, Layout.chars_ofText]
  exact Word.qualified hq (Word.ofQuote n.name)

theorem joinLayout_closed (ho : o.isSpacing = true) {j : Join} (hs : isIdentifier j.source.exposed = true)
    (ht : isIdentifier j.target.exposed = true) : Closed d ((joinLayout d j).chars o) := by
  have hkeys : Closed d (Layout.chars o (Layout.join [.space, .text "and", .space] (j.keys.map fun k =>
      ofText (j.source.exposed ++ "." ++ d.quote k.source ++ " = " ++
        j.target.exposed ++ "." ++ d.quote k.target)))) := by
    rw [Layout.chars_join]
    apply Closed.intercalate
    · simpa [separator, Connective.keyword, Piece.chars] using
        carries_separator (isBlank_of_isSpacing ho) .and
    · intro q hq
      simp only [List.map_map, List.mem_map, Function.comp_apply, Layout.chars_ofText] at hq
      obtain ⟨k, _, rfl⟩ := hq
      have he : Carries d endsStatement isSettled isCalm 0 0 " = ".toList :=
        Carries.fixed_leading (by cases d <;> decide)
      have hp := (Word.dotted hs (Word.ofQuote (d := d) k.source)).closed.glued he
        (Word.dotted ht (Word.ofQuote k.target)).closed
      simpa using hp
  have hgroup := (Word.group hkeys).closed
  have hkind : Closed d (joinKeyword j.kind).toList :=
    (Phrase.fixed (by cases d <;> cases j.kind <;> decide)).closed
  have hjoin : Closed d "join".toList := (Word.fixed (by cases d <;> decide)).closed
  have hon : Closed d "on".toList := (Word.fixed (by cases d <;> decide)).closed
  apply hkind.text
  apply Closed.led ho rfl
  apply hjoin.text
  apply Closed.led ho rfl
  apply (Word.ofQuote j.target.name).closed.text
  apply Closed.led ho rfl
  apply (Closed.ofIdentifier ht).text
  apply Closed.led ho rfl
  apply hon.text
  apply Closed.led ho rfl
  simpa [Piece.chars] using hgroup

theorem ofNat_closed (n : Nat) : Closed d (toString n).toList := (Word.ofInt (Int.ofNat n)).closed

theorem headLayout_closed (ho : o.isSpacing = true) (s : Select) : Closed d ((headLayout d s).chars o) := by
  have hword : ∀ t, isWord d t = true → Closed d t := fun t ht => (Word.fixed ht).closed
  have hdistinct : Follows d (Layout.chars o (if s.distinct then [.space, .text "distinct"] else [])) := by
    split
    · apply Closed.led ho rfl
      exact (hword "distinct".toList (by cases d <;> decide)).text .nil
    · exact .nil
  rw [headLayout, Layout.chars_append, Layout.chars_append, Layout.chars_ofText]
  apply Closed.before ((hword _ (by cases d <;> decide)).before hdistinct)
  split
  next rows _ _ =>
    apply Closed.led ho rfl
    apply (hword "top".toList (by cases d <;> decide)).text
    apply Closed.led ho rfl
    exact (ofNat_closed rows.toNat).text .nil
  next => exact .nil

theorem tailLayout_follows (ho : o.isSpacing = true) (s : Select) :
    Follows d ((tailLayout d s).chars o) := by
  unfold tailLayout
  split
  next rows _ _ =>
    have hlimit : Closed d "limit".toList := (Word.fixed (by cases d <;> decide)).closed
    apply Closed.led ho rfl
    apply hlimit.text
    apply Closed.led ho rfl
    exact (ofNat_closed rows.toNat).text .nil
  next => exact .nil

theorem columnsLayout_follows (ho : o.isSpacing = true) {s : Select}
    (hambient : isIdentifier (ambientName s) = true)
    (hcolumns : ∀ c ∈ s.columns, c.unquoted.all isIdentifier = true) :
    Follows d ((columnsLayout d s).chars o) := by
  have hall : ∀ c ∈ (if s.columns.isEmpty then [Column.wildcard ""] else s.columns),
      c.unquoted.all isIdentifier = true := by
    split
    · simp [Column.wildcard, Column.unquoted, isIdentifier]
    · exact hcolumns
  apply Closed.led ho rfl
  apply Closed.join ho rfl
  intro l hl
  obtain ⟨c, hc, rfl⟩ := List.mem_map.1 hl
  exact (columnLayout_phrase (isBlank_of_isSpacing ho) hambient (hall c hc)).closed

theorem fromLayout_follows (ho : o.isSpacing = true) {s : Select}
    (hambient : isIdentifier (ambientName s) = true)
    (hjoins : ∀ j ∈ s.joins, isIdentifier j.source.exposed = true ∧ isIdentifier j.target.exposed = true) :
    Follows d ((fromLayout d s).chars o) := by
  have hfrom : Closed d "from".toList := (Word.fixed (by cases d <;> decide)).closed
  have has : Closed d "as".toList := (Word.fixed (by cases d <;> decide)).closed
  apply Closed.led ho rfl
  apply hfrom.text
  apply Closed.led ho rfl
  apply (Word.ofQuote s.source.name).closed.text
  split
  · apply Closed.led ho rfl
    apply has.text
    apply Closed.led ho rfl
    apply (Closed.ofIdentifier hambient).text
    apply Closed.led ho rfl
    apply Closed.join ho rfl
    intro l hl
    obtain ⟨j, hj, rfl⟩ := List.mem_map.1 hl
    exact joinLayout_closed ho (hjoins j hj).1 (hjoins j hj).2
  · exact .nil

theorem clause_follows (ho : o.isSpacing = true) {keyword : String} (hk : Closed d keyword.toList)
    {l : Layout} (h : Closed d (l.chars o)) :
    Follows d (Layout.chars o ([.lineBreak 0, .text keyword, .lineBreak 1] ++ l)) := by
  apply Closed.led ho rfl
  apply hk.text
  exact h.led ho rfl

theorem whereLayout_follows (ho : o.isSpacing = true) {s : Select}
    (hambient : isIdentifier (ambientName s) = true)
    (hfilter : ∀ f, s.filter = some f → ∀ c ∈ f.allConditions, c.column.unquoted.all isIdentifier = true)
    {l : Layout} (h : whereLayout d s = .ok l) : Follows d (l.chars o) := by
  unfold whereLayout at h
  split at h
  next f hf =>
    obtain ⟨m, hm, h⟩ := bind_eq_ok.1 h
    obtain rfl := Except.ok.inj h
    have hs : s.filter = some f := (Option.filter_eq_some_iff.1 hf).1
    apply clause_follows ho (Word.fixed (by cases d <;> decide)).closed
    exact (filterLayout_word (isBlank_of_isSpacing ho) hambient f (hfilter f hs) m hm).closed
  next =>
    obtain rfl := Except.ok.inj h
    exact .nil

theorem orderLayout_follows (ho : o.isSpacing = true) {s : Select}
    (hambient : isIdentifier (ambientName s) = true)
    (horder : ∀ r ∈ s.orderBy, isIdentifier r.column.aliasName = true) :
    Follows d ((orderLayout d s).chars o) := by
  unfold orderLayout
  split
  · apply clause_follows ho (Phrase.fixed (by cases d <;> decide)).closed
    apply Closed.join ho rfl
    intro l hl
    obtain ⟨r, hr, rfl⟩ := List.mem_map.1 hl
    have hd : Closed d r.direction.keyword.toList :=
      (Word.fixed (by cases d <;> cases r.direction <;> decide)).closed
    rw [Layout.chars_append]
    apply (nameLayout_word hambient (horder r hr)).closed.before
    exact Closed.led ho rfl (hd.text .nil)
  · exact .nil

theorem groupLayout_follows (ho : o.isSpacing = true) {s : Select}
    (hambient : isIdentifier (ambientName s) = true)
    (hgroup : ∀ n ∈ s.groupBy, isIdentifier n.aliasName = true) :
    Follows d ((groupLayout d s).chars o) := by
  unfold groupLayout
  split
  · apply clause_follows ho (Phrase.fixed (by cases d <;> decide)).closed
    apply Closed.join ho rfl
    intro l hl
    obtain ⟨n, hn, rfl⟩ := List.mem_map.1 hl
    exact (nameLayout_word hambient (hgroup n hn)).closed
  · exact .nil

theorem selectLayout_closed (ho : o.isSpacing = true) {s : Select}
    (hs : (unquoted s).all isIdentifier = true) {l : Layout} (h : selectLayout d s = .ok l) :
    Closed d (l.chars o) := by
  obtain ⟨filter, hfilter, h⟩ := bind_eq_ok.1 h
  obtain rfl := Except.ok.inj h
  simp only [unquoted, List.all_cons, List.all_append, List.all_flatMap, List.all_map, List.map_append,
    List.all_eq_true, Bool.and_eq_true, Function.comp_apply, Option.mem_toList] at hs
  obtain ⟨hambient, ⟨⟨hcolumns, hconditions⟩, hjoins⟩, horder, hgroup⟩ := hs
  have hwhere : Follows d (filter.chars o) := by
    refine whereLayout_follows ho hambient ?_ hfilter
    exact fun f hf c hc => List.all_eq_true.2 (hconditions f hf c hc)
  have hproject : Follows d ((columnsLayout d s).chars o) :=
    columnsLayout_follows ho hambient fun c hc => List.all_eq_true.2 (hcolumns c hc)
  have hfrom : Follows d ((fromLayout d s).chars o) :=
    fromLayout_follows ho hambient fun j hj => ⟨(hjoins j hj).1, (hjoins j hj).2.1⟩
  simp only [Layout.chars_append]
  exact (((((headLayout_closed ho s).before hproject).before hfrom).before hwhere).before
    (orderLayout_follows ho hambient horder)).before (groupLayout_follows ho hambient hgroup) |>.before
    (tailLayout_follows ho s)

theorem selectText_closed (d : Dialect) (o : LayoutOptions) (s : Select) (t : String)
    (hspacing : o.isSpacing = true) (hunquoted : (unquoted s).all isIdentifier = true)
    (h : selectText d o s = .ok t) :
    (Scan.run d endsStatement {} t.toList).isTop = true ∧
      (Scan.run d endsStatement {} t.toList).broken = false := by
  obtain ⟨l, hl, rfl⟩ := selectText_eq_ok.1 h
  obtain ⟨r, hr, hrun⟩ := selectLayout_closed hspacing hunquoted hl (.outside ' ') rfl
  rw [Layout.toList_render, hrun]
  simp [Scan.isTop, hr]

def hostileNames : Select where
  source := ⟨"acc]ount--", "a"⟩
  distinct := true
  top := some 5
  columns := [
    { expression := "na]me;", name := "it's /* here" },
    { expression := "total\"(", qualifier := "c", aggregate := some "countcolumn", distinct := true }]
  filter := some ⟨.or, [⟨{ expression := "note" }, "ne", .single "'); drop table x --"⟩],
    [⟨.and, [⟨{ expression := "age", qualifier := "c" }, "next-x-weeks", .single "-3"⟩], []⟩]⟩
  joins := [⟨.left, ⟨"account", "a"⟩, ⟨"con]tact", "c"⟩, [⟨"id", "parent]id"⟩, ⟨"x\"", "y;"⟩]⟩]
  orderBy := [⟨.descending, ⟨"na]me", ""⟩⟩]
  groupBy := [⟨"region/*", "c"⟩]

theorem selectText_closed_hostileNames :
    LayoutOptions.isSpacing {} = true ∧ (unquoted hostileNames).all isIdentifier = true ∧
    ∃ t, selectText .postgres {} hostileNames = .ok t ∧
      (Scan.run .postgres endsStatement {} t.toList).isTop = true ∧
      (Scan.run .postgres endsStatement {} t.toList).broken = false := by
  have hspacing : LayoutOptions.isSpacing {} = true := by decide
  have hunquoted : (unquoted hostileNames).all isIdentifier = true := by decide
  obtain ⟨t, ht⟩ : ∃ t, selectText .postgres {} hostileNames = .ok t := ⟨_, rfl⟩
  exact ⟨hspacing, hunquoted, t, ht, selectText_closed .postgres {} hostileNames t hspacing hunquoted ht⟩

end FetchQuery.Sql
