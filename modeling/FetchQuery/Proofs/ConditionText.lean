import FetchQuery.Proofs.ColumnText
import FetchQuery.Proofs.Fallible

namespace FetchQuery.Text

theorem toList_join (sep : String) (texts : List String) :
    (join sep texts).toList = sep.toList.intercalate (texts.map String.toList) := by
  match texts with
  | [] => rfl
  | [t] => simp [join]
  | t :: u :: texts =>
    rw [join, String.toList_append, String.toList_append, toList_join sep (u :: texts)]
    simp only [List.map_cons, List.intercalate_cons_cons]

end FetchQuery.Text

namespace FetchQuery.Sql

open Reading (isCalm isSettled)
open Layout (ofText)
open Fallible

variable {d : Dialect} {o : LayoutOptions} {lhs : Layout}

theorem Phrase.andThen {cs ds : List Char} (h : Phrase d cs) (h' : Phrase d ds) : Phrase d (cs ++ ' ' :: ds) :=
  h.append (by decide) h'

theorem closed_literalList (values : List String) : Closed d (literalList values).toList := by
  rw [literalList, Text.toList_join]
  apply Closed.intercalate
  · exact Carries.fixed_leading (by cases d <;> decide)
  · intro p hp
    simp only [List.map_map, List.mem_map, Function.comp_apply] at hp
    obtain ⟨value, _, rfl⟩ := hp
    exact (Word.ofLiteral value).closed

theorem pair_word (glue : List Char) {a b : List Char}
    (hg : (glue.head?.any isLeading && reads d endsStatement isCalm 0 0 glue) = true)
    (ha : Closed d a) (hb : Closed d b) : Word d ('(' :: (a ++ (glue ++ b) ++ [')'])) :=
  Word.group (ha.glued (Carries.fixed_leading hg) hb)

theorem compared_phrase (hl : Phrase d (lhs.chars o)) (sign : String) (hs : Phrase d sign.toList)
    (value : String) : Phrase d ((lhs ++ ofText (" " ++ sign ++ " " ++ literal value)).chars o) := by
  simpa using (hl.andThen hs).andThen (.word (Word.ofLiteral value))

theorem isIn_phrase (hl : Phrase d (lhs.chars o)) (sign : String) (hs : Phrase d sign.toList)
    (operands : List String) :
    Phrase d ((lhs ++ ofText (" " ++ sign ++ " (" ++ literalList operands ++ ")")).chars o) := by
  simpa using (hl.andThen hs).andThen (.word (Word.group (closed_literalList operands)))

theorem currentUser_phrase (hl : Phrase d (lhs.chars o)) : Phrase d ((d.currentUser lhs).chars o) := by
  have hi : Word d "in".toList := Word.fixed (by cases d <;> decide)
  cases d with
  | sqlServer =>
    have hs : Word .sqlServer
        "(select SystemUserId from SystemUserBase where DomainName = SUSER_SNAME())".toList :=
      Word.fixed (by decide +kernel)
    simpa [Dialect.currentUser] using (hl.andThen (.word hi)).andThen (.word hs)
  | postgres =>
    have hs : Word .postgres ("(select " ++ Dialect.postgres.quote "SystemUserId" ++ " from " ++
        Dialect.postgres.quote "SystemUserBase" ++ " where " ++ Dialect.postgres.quote "DomainName" ++
        " = current_user)").toList :=
      Word.fixed (by decide +kernel)
    simpa [Dialect.currentUser] using (hl.andThen (.word hi)).andThen (.word hs)

namespace SqlServer

theorem partsToNow_word (hl : Phrase .sqlServer (lhs.chars o)) (part : DatePart) :
    Word .sqlServer ((partsToNow part lhs).chars o) := by
  have h := Word.call ("DATEDIFF(" ++ part.keyword ++ ", ").toList ", GETDATE())".toList
    (by cases part <;> decide) (by decide) hl.closed
  simpa [partsToNow] using h

theorem sameDay_phrase (hl : Phrase .sqlServer (lhs.chars o)) {day : String}
    (hd : isWord .sqlServer ("CONVERT(DATE, " ++ day ++ ")").toList = true) :
    Phrase .sqlServer ((sameDay lhs day).chars o) := by
  have hw := Word.call "CONVERT(DATE, ".toList ")".toList (by decide) (by decide)
    hl.closed
  have he : Word .sqlServer "=".toList := Word.fixed (by decide)
  simpa [sameDay] using ((Phrase.word hw).andThen (.word he)).andThen (.word (Word.fixed hd))

theorem compareDay_phrase (hl : Phrase .sqlServer (lhs.chars o)) {comparison : String}
    (hc : isWord .sqlServer comparison.toList = true) (date : String) :
    Phrase .sqlServer ((compareDay comparison date lhs).chars o) := by
  have hg : Carries .sqlServer endsStatement isSettled isCalm 0 0 ", ".toList :=
    Carries.fixed_leading (by decide)
  have ha := hl.closed.glued hg (Word.ofLiteral date).closed
  have hw := Word.call "DATEDIFF(day, ".toList ")".toList (by decide) (by decide) ha
  have hz : Word .sqlServer "0".toList := Word.fixed (by decide)
  simpa [compareDay] using ((Phrase.word hw).andThen (.word (Word.fixed hc))).andThen (.word hz)

/-- A number of parts up to now, compared with an integer. -/
theorem partsCompared_phrase (hl : Phrase .sqlServer (lhs.chars o)) (part : DatePart) (sign : String)
    (hs : isWord .sqlServer sign.toList = true) (n : Int) :
    Phrase .sqlServer ((partsToNow part lhs ++ ofText (" " ++ sign ++ " " ++ toString n)).chars o) := by
  simpa using ((Phrase.word (partsToNow_word hl part)).andThen (.word (Word.fixed hs))).andThen
    (.word (Word.ofInt n))

theorem aheadWindow_word (hl : Phrase .sqlServer (lhs.chars o)) (part : DatePart) (n : Int) :
    Word .sqlServer ((aheadWindow part n lhs).chars o) := by
  have hc := partsCompared_phrase hl part ">" (by decide) (Text.negateInt64 n)
  have h := pair_word " <= 0 and ".toList (by decide) (partsToNow_word hl part).closed hc.closed
  simpa [aheadWindow] using h

theorem behindWindow_word (hl : Phrase .sqlServer (lhs.chars o)) (part : DatePart) (n : Int) :
    Word .sqlServer ((behindWindow part n lhs).chars o) := by
  have hc := partsCompared_phrase hl part "<" (by decide) n
  have h := pair_word " >= 0 and ".toList (by decide) (partsToNow_word hl part).closed hc.closed
  simpa [behindWindow] using h

theorem dateCondition_phrase (hl : Phrase .sqlServer (lhs.chars o)) {op : Operator}
    {operands : List String} {l : Layout} (h : dateCondition lhs op operands = .ok l) :
    Phrase .sqlServer (l.chars o) := by
  cases op with
  | today | tomorrow | yesterday =>
    obtain rfl := Except.ok.inj h
    exact sameDay_phrase hl (by decide +kernel)
  | on | onOrBefore | onOrAfter =>
    obtain ⟨date, _, h⟩ := bind_eq_ok.1 h
    obtain rfl := Except.ok.inj h
    exact compareDay_phrase hl (by decide) date
  | calendar part offset =>
    obtain rfl := Except.ok.inj h
    exact partsCompared_phrase hl part "=" (by decide) offset
  | lastSevenDays =>
    obtain rfl := Except.ok.inj h
    exact .word (aheadWindow_word hl .day 7)
  | nextSevenDays =>
    obtain rfl := Except.ok.inj h
    exact .word (behindWindow_word hl .day 7)
  | lastX part =>
    obtain ⟨n, _, h⟩ := bind_eq_ok.1 h
    obtain rfl := Except.ok.inj h
    exact .word (aheadWindow_word hl part n)
  | nextX part =>
    obtain ⟨n, _, h⟩ := bind_eq_ok.1 h
    obtain rfl := Except.ok.inj h
    exact .word (behindWindow_word hl part n)
  | olderThanX part =>
    obtain ⟨n, _, h⟩ := bind_eq_ok.1 h
    obtain rfl := Except.ok.inj h
    exact partsCompared_phrase hl part "<" (by decide) n
  | _ => cases h

end SqlServer

namespace Postgres

theorem date_phrase {cs : List Char} (h : Phrase .postgres cs) : Phrase .postgres (cs ++ "::date".toList) :=
  h.extend (Carries.fixed_leading (by decide)) (c := ':') (by decide) (by decide)

theorem sameDay_phrase (hl : Phrase .postgres (lhs.chars o)) (day : String)
    (hd : (Text.split ' ' day.toList).all (isWord .postgres) = true) :
    Phrase .postgres ((lhs ++ ofText ("::date " ++ day)).chars o) := by
  simpa using (date_phrase hl).andThen (Phrase.fixed hd)

theorem compareDay_phrase (hl : Phrase .postgres (lhs.chars o)) {comparison : String}
    (hc : isWord .postgres comparison.toList = true) (date : String) :
    Phrase .postgres ((compareDay comparison date lhs).chars o) := by
  have hd := date_phrase (Phrase.word (Word.ofLiteral date))
  have hm : Word .postgres "-".toList := Word.fixed (by decide)
  have hz : Word .postgres "0".toList := Word.fixed (by decide)
  simpa [compareDay] using (((hd.andThen (.word hm)).andThen (date_phrase hl)).andThen (.word (Word.fixed hc))).andThen
    (.word hz)

/-- An interval is a text in quotes, built from an integer. -/
theorem interval_word (n : Int) (part : DatePart) :
    Word .postgres ("'" ++ toString n ++ " " ++ part.keyword ++ "'").toList := by
  have hq : '\x27' ∉ (toString n ++ " " ++ part.keyword).toList := by
    obtain ⟨ds, _, hd, he⟩ := digits_of_int n
    have hds : '\x27' ∉ ds := fun h => absurd (List.all_eq_true.1 hd _ h) (by decide)
    have hk : '\x27' ∉ part.keyword.toList := by cases part <;> decide
    have hn : '\x27' ∉ (toString n).toList := by
      rcases he with he | he <;> simp only [he, List.mem_cons, hds, or_false] <;> decide
    simp only [String.toList_append, List.mem_append, not_or]
    exact ⟨⟨hn, by decide⟩, hk⟩
  have hw : Word .postgres (quoted (toString n ++ " " ++ part.keyword)).toList := Word.ofQuoted _
  rw [quoted, Text.enclose, Text.doubled_eq_self hq] at hw
  simpa using hw

theorem units_phrase (n : Int) (part : DatePart) : Phrase .postgres (units n part).toList := by
  have hi : Phrase .postgres "* interval".toList := Phrase.fixed (by decide)
  have ho : Word .postgres ("'1 " ++ part.keyword ++ "'").toList := Word.fixed (by cases part <;> decide)
  simpa [units] using ((Phrase.word (Word.ofInt n)).andThen hi).andThen (.word ho)

theorem aheadWindow_word (hl : Phrase .postgres (lhs.chars o)) {span : String}
    (hs : Phrase .postgres span.toList) : Word .postgres ((aheadWindow lhs span).chars o) := by
  have hn : Phrase .postgres "< now() +".toList := Phrase.fixed (by decide)
  have h := pair_word " >= now() and ".toList (by decide) hl.closed ((hl.andThen hn).andThen hs).closed
  simpa [aheadWindow] using h

theorem behindWindow_word (hl : Phrase .postgres (lhs.chars o)) {span : String}
    (hs : Phrase .postgres span.toList) : Word .postgres ((behindWindow lhs span).chars o) := by
  have hn : Phrase .postgres "> now() -".toList := Phrase.fixed (by decide)
  have h := pair_word " <= now() and ".toList (by decide) hl.closed ((hl.andThen hn).andThen hs).closed
  simpa [behindWindow] using h

theorem olderThan_phrase (hl : Phrase .postgres (lhs.chars o)) (n : Int) (part : DatePart) :
    Phrase .postgres ((lhs ++ ofText (" > now() - " ++ units n part)).chars o) := by
  have hn : Phrase .postgres "> now() -".toList := Phrase.fixed (by decide)
  simpa using (hl.andThen hn).andThen (units_phrase n part)

theorem currentPart_phrase (part : DatePart) (offset : Int) :
    Phrase .postgres (currentPart part offset).toList := by
  have hw : Word .postgres ("date_trunc('" ++ part.keyword ++ "', now())").toList :=
    Word.fixed (by cases part <;> decide)
  unfold currentPart
  split
  · simpa using Phrase.word hw
  · have hi : Phrase .postgres "- interval".toList := Phrase.fixed (by decide)
    simpa using ((Phrase.word hw).andThen hi).andThen (.word (interval_word offset part))

theorem calendar_phrase (hl : Phrase .postgres (lhs.chars o)) (part : DatePart) (offset : Int) :
    Phrase .postgres ((ofText ("date_trunc('" ++ part.keyword ++ "', ") ++ lhs ++
      ofText (") = " ++ currentPart part offset)).chars o) := by
  have hw := Word.call ("date_trunc('" ++ part.keyword ++ "', ").toList ")".toList
    (by cases part <;> decide) (by decide) hl.closed
  have he : Word .postgres "=".toList := Word.fixed (by decide)
  simpa using ((Phrase.word hw).andThen (.word he)).andThen (currentPart_phrase part offset)

theorem dateCondition_phrase (hl : Phrase .postgres (lhs.chars o)) {op : Operator}
    {operands : List String} {l : Layout} (h : dateCondition lhs op operands = .ok l) :
    Phrase .postgres (l.chars o) := by
  have hweek : Phrase .postgres "interval '7 day'".toList := by
    have hi : Word .postgres "interval".toList := Word.fixed (by decide)
    have hd : Word .postgres "'7 day'".toList := Word.fixed (by decide)
    exact (Phrase.word hi).andThen (.word hd)
  cases op with
  | today =>
    obtain rfl := Except.ok.inj h
    exact sameDay_phrase hl "= current_date" (by decide)
  | tomorrow =>
    obtain rfl := Except.ok.inj h
    exact sameDay_phrase hl "= current_date + 1" (by decide)
  | yesterday =>
    obtain rfl := Except.ok.inj h
    exact sameDay_phrase hl "= current_date - 1" (by decide)
  | on | onOrBefore | onOrAfter =>
    obtain ⟨date, _, h⟩ := bind_eq_ok.1 h
    obtain rfl := Except.ok.inj h
    exact compareDay_phrase hl (by decide) date
  | calendar part offset =>
    obtain rfl := Except.ok.inj h
    exact calendar_phrase hl part offset
  | lastSevenDays =>
    obtain rfl := Except.ok.inj h
    exact .word (aheadWindow_word hl hweek)
  | nextSevenDays =>
    obtain rfl := Except.ok.inj h
    exact .word (behindWindow_word hl hweek)
  | lastX part =>
    obtain ⟨n, _, h⟩ := bind_eq_ok.1 h
    obtain rfl := Except.ok.inj h
    exact .word (aheadWindow_word hl (units_phrase n part))
  | nextX part =>
    obtain ⟨n, _, h⟩ := bind_eq_ok.1 h
    obtain rfl := Except.ok.inj h
    exact .word (behindWindow_word hl (units_phrase n part))
  | olderThanX part =>
    obtain ⟨n, _, h⟩ := bind_eq_ok.1 h
    obtain rfl := Except.ok.inj h
    exact olderThan_phrase hl n part
  | _ => cases h

end Postgres

namespace Dialect

theorem dateCondition_phrase (hl : Phrase d (lhs.chars o)) {op : Operator} {operands : List String}
    {l : Layout} (h : d.dateCondition lhs op operands = .ok l) : Phrase d (l.chars o) := by
  cases d with
  | sqlServer => exact SqlServer.dateCondition_phrase hl h
  | postgres => exact Postgres.dateCondition_phrase hl h

theorem operatorCondition_phrase (hl : Phrase d (lhs.chars o)) {op : Operator} {operands : List String}
    {l : Layout} (h : d.operatorCondition lhs op operands = .ok l) : Phrase d (l.chars o) := by
  cases op with
  | eq | lt | le | gt | ge | like | notLike | beginsWith | notBeginWith | endsWith | notEndWith =>
    obtain ⟨value, _, h⟩ := bind_eq_ok.1 h
    obtain rfl := Except.ok.inj h
    exact compared_phrase hl _ (Phrase.fixed (by cases d <;> decide)) _
  | ne | neq =>
    -- the operator's own connective stays inside its parentheses
    obtain ⟨value, _, h⟩ := bind_eq_ok.1 h
    obtain rfl := Except.ok.inj h
    have hc := compared_phrase hl "!=" (Phrase.fixed (by cases d <;> decide)) value
    have hn : Phrase d "is null".toList := Phrase.fixed (by cases d <;> decide)
    have hw := pair_word " or ".toList (by cases d <;> decide) hc.closed (hl.andThen hn).closed
    exact .word (by simpa using hw)
  | null =>
    obtain rfl := Except.ok.inj h
    have hn : Phrase d "is null".toList := Phrase.fixed (by cases d <;> decide)
    simpa using hl.andThen hn
  | notNull =>
    obtain rfl := Except.ok.inj h
    have hn : Phrase d "is not null".toList := Phrase.fixed (by cases d <;> decide)
    simpa using hl.andThen hn
  | isIn =>
    obtain rfl := Except.ok.inj h
    simpa using isIn_phrase hl "in" (Phrase.fixed (by cases d <;> decide)) operands
  | notIn =>
    obtain rfl := Except.ok.inj h
    simpa using isIn_phrase hl "not in" (Phrase.fixed (by cases d <;> decide)) operands
  | between =>
    obtain ⟨⟨low, high⟩, _, h⟩ := bind_eq_ok.1 h
    obtain rfl := Except.ok.inj h
    have hlow := compared_phrase hl ">=" (Phrase.fixed (by cases d <;> decide)) low
    have hhigh := compared_phrase hl "<=" (Phrase.fixed (by cases d <;> decide)) high
    have hw := pair_word " and ".toList (by cases d <;> decide) hlow.closed hhigh.closed
    exact .word (by simpa using hw)
  | notBetween =>
    obtain ⟨⟨low, high⟩, _, h⟩ := bind_eq_ok.1 h
    obtain rfl := Except.ok.inj h
    have hlow := compared_phrase hl "<" (Phrase.fixed (by cases d <;> decide)) low
    have hhigh := compared_phrase hl ">" (Phrase.fixed (by cases d <;> decide)) high
    have hw := pair_word " or ".toList (by cases d <;> decide) hlow.closed hhigh.closed
    exact .word (by simpa using hw)
  | eqUserId =>
    obtain rfl := Except.ok.inj h
    exact currentUser_phrase hl
  | _ => exact dateCondition_phrase hl h

end Dialect

theorem conditionLayout_phrase (ho : Text.isBlank o.spaceChar = true) {ambient : String}
    (ha : isIdentifier ambient = true) {c : Statement.Condition}
    (hc : c.column.unquoted.all isIdentifier = true) {l : Layout}
    (h : conditionLayout d ambient c = .ok l) : Phrase d (l.chars o) := by
  obtain ⟨op, _, h⟩ := bind_eq_ok.1 h
  obtain ⟨_, _, h⟩ := bind_eq_ok.1 h
  exact Dialect.operatorCondition_phrase (columnLayout_phrase ho ha hc) h

end FetchQuery.Sql
