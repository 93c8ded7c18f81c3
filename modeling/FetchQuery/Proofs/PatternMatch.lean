import FetchQuery.Proofs.ConditionFrame
import FetchQuery.Proofs.Lexicon
import FetchQuery.Proofs.LiteralValue
import Mathlib.Data.List.Infix

namespace FetchQuery.Sql

open Layout (ofText)

namespace Pattern

inductive Item where
  /-- Any characters, or none. -/
  | run
  /-- Any one character. -/
  | one
  /-- One character of a set, which is kept as it is written. -/
  | member (set : List Char)
  | exactly (c : Char)

/-- Where the reading of a pattern stands: outside, after a backslash, or in brackets. -/
inductive Mode where
  | plain
  | escaped
  | set (seen : List Char)

/-- The items of a pattern. Sets in brackets are SQL Server's and escapes are PostgreSQL's; a pattern that ends
inside one of them cannot be read. -/
def items? (d : Dialect) : Mode → List Char → Option (List Item)
  | .plain, [] => some []
  | .escaped, [] => none
  | .set _, [] => none
  | .escaped, c :: cs => (items? d .plain cs).map (.exactly c :: ·)
  | .set seen, c :: cs =>
    if c = ']' then (items? d .plain cs).map (.member seen.reverse :: ·)
    else items? d (.set (c :: seen)) cs
  | .plain, c :: cs =>
    match c, d with
    | '%', _ => (items? d .plain cs).map (.run :: ·)
    | '_', _ => (items? d .plain cs).map (.one :: ·)
    | '[', .sqlServer => items? d (.set []) cs
    | '\\', .postgres => items? d .escaped cs
    | c, _ => (items? d .plain cs).map (.exactly c :: ·)

/-- The characters that stand for something else in the patterns of some dialect. -/
def wildcards : List Char := ['%', '_', '[', '\\']

variable {d : Dialect} (sets : List Char → Char → Bool)

/-- Whether a text fits the items. Which characters are in a written set depends on their order in the
database, so that is given. -/
def fits : List Item → List Char → Bool
  | [], cs => cs.isEmpty
  | .run :: items, cs => cs.tails.any (fits items)
  | .one :: items, _ :: cs => fits items cs
  | .member set :: items, c :: cs => sets set c && fits items cs
  | .exactly e :: items, c :: cs => c == e && fits items cs
  | _ :: _, [] => false

def like (d : Dialect) (pattern s : String) : Bool :=
  (items? d .plain pattern.toList).any (fits sets · s.toList)

theorem items?_cons {c : Char} (hc : c ∉ wildcards) (cs : List Char) :
    items? d .plain (c :: cs) = (items? d .plain cs).map (.exactly c :: ·) := by
  simp only [wildcards, List.mem_cons, List.not_mem_nil, or_false, not_or] at hc
  simp [items?, hc]

theorem items?_append {v : List Char} (hv : ∀ c ∈ v, c ∉ wildcards) (rest : List Char) :
    items? d .plain (v ++ rest) = (items? d .plain rest).map (v.map .exactly ++ ·) := by
  induction v with
  | nil => simp
  | cons c v ih =>
    rw [List.forall_mem_cons] at hv
    rw [List.cons_append, items?_cons hv.1, ih hv.2, Option.map_map]
    rfl

theorem fits_exactly_append (v : List Char) (items : List Item) (cs : List Char) :
    fits sets (v.map .exactly ++ items) cs = true ↔ ∃ rest, cs = v ++ rest ∧ fits sets items rest = true := by
  induction v generalizing cs with
  | nil => simp
  | cons c v ih =>
    cases cs with
    | nil => simp [fits]
    | cons e cs => simp [fits, ih, and_assoc]

theorem fits_run (items : List Item) (cs : List Char) :
    fits sets (.run :: items) cs = true ↔ ∃ rest, rest <:+ cs ∧ fits sets items rest = true := by
  simp [fits]

theorem fits_prefix (v cs : List Char) : fits sets (v.map .exactly ++ [.run]) cs = true ↔ v <+: cs := by
  -- a run at the end fits whatever is left
  have hall (rest : List Char) : fits sets [.run] rest = true :=
    (fits_run sets [] rest).2 ⟨[], List.nil_suffix, rfl⟩
  rw [fits_exactly_append]
  simp only [hall, and_true]
  exact exists_congr fun _ => eq_comm

theorem fits_suffix (v cs : List Char) : fits sets (.run :: v.map .exactly) cs = true ↔ v <:+ cs := by
  have hexact (rest : List Char) : fits sets (v.map .exactly) rest = true ↔ rest = v := by
    have h := fits_exactly_append sets v [] rest
    simpa [fits] using h
  simp only [fits_run, hexact, exists_eq_right]

end Pattern

structure PatternTest where
  negated : Bool
  pattern : String

namespace PatternTest

def read? (column text : String) : Option PatternTest := do
  let rest ← Text.after? column text
  match Text.after? " like " rest, Text.after? " not like " rest with
  | some token, _ => (literalValue? token).map (⟨false, ·⟩)
  | none, some token => (literalValue? token).map (⟨true, ·⟩)
  | none, none => none

def holds (sets : List Char → Char → Bool) (d : Dialect) (t : PatternTest) (s : String) : Bool :=
  Pattern.like sets d t.pattern s != t.negated

def keyword (negated : Bool) : String := if negated then " not like " else " like "

theorem read?_append (column : String) (negated : Bool) (token : String) :
    read? column (column ++ (keyword negated ++ token)) = (literalValue? token).map (⟨negated, ·⟩) := by
  have hafter (start rest : String) : Text.after? start (start ++ rest) = some rest :=
    Text.after?_eq_some_iff.2 rfl
  rw [read?, hafter]
  cases negated with
  | false => simp [keyword, hafter]
  | true =>
    have hnone : Text.after? " like " (" not like " ++ token) = none := by
      simp [Text.after?, Text.after?.rest]
    simp [keyword, hnone, hafter]

end PatternTest

inductive Affix where
  | front | back

namespace Affix

def operator : Affix → Bool → Operator
  | front, false => .beginsWith
  | front, true => .notBeginWith
  | back, false => .endsWith
  | back, true => .notEndWith

def Bounds (v s : String) : Affix → Prop
  | front => v.toList <+: s.toList
  | back => v.toList <:+ s.toList

def pattern (v : String) : Affix → String
  | front => v ++ "%"
  | back => "%" ++ v

theorem percent_mem_pattern (a : Affix) (v : String) : '%' ∈ (a.pattern v).toList := by
  cases a <;> simp [pattern]

theorem like_pattern (sets : List Char → Char → Bool) (d : Dialect) (a : Affix) {v : String}
    (hv : ∀ c ∈ v.toList, c ∉ Pattern.wildcards) (s : String) :
    Pattern.like sets d (a.pattern v) s = true ↔ a.Bounds v s := by
  -- the percent sign is the only character of the pattern that does not stand for itself
  cases a with
  | front =>
    have hitems : Pattern.items? d .plain (v.toList ++ ['%']) = some (v.toList.map .exactly ++ [.run]) :=
      Pattern.items?_append hv ['%']
    simp [Pattern.like, pattern, Bounds, hitems, Pattern.fits_prefix]
  | back =>
    have hitems : Pattern.items? d .plain v.toList = some (v.toList.map .exactly) := by
      simpa [Pattern.items?] using Pattern.items?_append (d := d) hv []
    simp [Pattern.like, pattern, Bounds, Pattern.items?, hitems, Pattern.fits_suffix]

/-- The pattern is a text in quotes even where the operand alone is a number or a GUID. -/
theorem condition_eq (d : Dialect) (lhs : Layout) (a : Affix) (negated : Bool) (v : String) :
    d.condition lhs (a.operator negated).id [v] =
      .ok (lhs ++ ofText (PatternTest.keyword negated ++ quoted (a.pattern v))) := by
  have hop : a.operator negated ∈ Operator.all := by cases a <;> cases negated <;> decide
  rw [Dialect.condition, Operator.ofId_eq_ok_iff.2 ⟨hop, rfl⟩, ← literal_of_percent (a.percent_mem_pattern v)]
  cases a <;> cases negated <;> rfl

end Affix

theorem literalValue?_quoted (s : String) : literalValue? (quoted s) = some s := by
  rw [literalValue?, if_pos (head?_quoted s), quotedText?_quoted]

/-- The conditions on an end of a text decode to one pattern, which fits the texts with the operand at that end,
and to its negation. -/
theorem affixCondition_exact (sets : List Char → Char → Bool) (d : Dialect) (o : LayoutOptions) (lhs : Layout)
    (a : Affix) (v : String) (hv : ∀ c ∈ v.toList, c ∉ Pattern.wildcards) :
    ∃ pattern, (∀ s, Pattern.like sets d pattern s = true ↔ a.Bounds v s) ∧
      ∀ negated, ∃ l, d.condition lhs (a.operator negated).id [v] = .ok l ∧
        PatternTest.read? (lhs.render o) (l.render o) = some ⟨negated, pattern⟩ ∧
        ∀ s, PatternTest.holds sets d ⟨negated, pattern⟩ s = true ↔
          if negated then ¬ a.Bounds v s else a.Bounds v s := by
  have hlike := a.like_pattern sets d hv
  refine ⟨a.pattern v, hlike, fun negated => ⟨_, a.condition_eq d lhs negated v, ?_, fun s => ?_⟩⟩
  · rw [Layout.render_append, Layout.render_ofText, PatternTest.read?_append, literalValue?_quoted]
    rfl
  · cases negated <;> simp [PatternTest.holds, ← hlike]

example : (Dialect.sqlServer.condition (ofText "[code]") "not-begin-with" ["42"]).map (Layout.render {}) =
    .ok "[code] not like '42%'" := by
  decide

def bracedGuid : String := "{6F9619FF-8B86-D011-B42D-00C04FC964FF}"

theorem affixCondition_exact_guid :
    literal bracedGuid = "'6f9619ff-8b86-d011-b42d-00c04fc964ff'" ∧
    (∀ c ∈ bracedGuid.toList, c ∉ Pattern.wildcards) ∧
    ∃ pattern, (∀ s, Pattern.like List.contains .postgres pattern s = true ↔ Affix.back.Bounds bracedGuid s) ∧
      ∀ negated, ∃ l,
        Dialect.postgres.condition (ofText "x") (Affix.back.operator negated).id [bracedGuid] = .ok l ∧
        PatternTest.read? "x" (l.render {}) = some ⟨negated, pattern⟩ ∧
        ∀ s, PatternTest.holds List.contains .postgres ⟨negated, pattern⟩ s = true ↔
          if negated then ¬ Affix.back.Bounds bracedGuid s else Affix.back.Bounds bracedGuid s := by
  have hv : ∀ c ∈ bracedGuid.toList, c ∉ Pattern.wildcards := by simp [bracedGuid, Pattern.wildcards]
  exact ⟨by decide, hv, affixCondition_exact List.contains .postgres {} (ofText "x") .back bracedGuid hv⟩

end FetchQuery.Sql
