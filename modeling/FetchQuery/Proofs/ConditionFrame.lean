import FetchQuery.Proofs.ConditionText
import FetchQuery.Proofs.IntegerText
import FetchQuery.Proofs.LiteralText

namespace FetchQuery

/-- The operands that an operator makes use of. -/
def Operator.used (op : Operator) (operands : List String) : List String :=
  if op.arity = .none then [] else operands

namespace Sql

open Layout (ofText)
open Fallible

/-- The pieces in order, with a token between each two neighbours. -/
def weave : List String → List String → String
  | piece :: pieces, token :: tokens => piece ++ token ++ weave pieces tokens
  | [piece], [] => piece
  | _, _ => ""

/-- How a token stands for the operand of an operator: patterns are texts with a wildcard at one end,
bounds are integers, and all else is a literal. -/
def StandsFor (d : Dialect) (op : Operator) (operand token : String) : Prop :=
  match op with
  | .beginsWith | .notBeginWith => quotedText? token = some (operand ++ "%")
  | .endsWith | .notEndWith => quotedText? token = some ("%" ++ operand)
  | .lastX _ =>
    ∃ n, Text.WritesInt64 operand n ∧
      token = toString (match d with | .sqlServer => min (-n) (2 ^ 63 - 1) | .postgres => n)
  | .nextX _ | .olderThanX _ =>
    ∃ n, Text.WritesInt64 operand n ∧ token = toString n
  | _ => Denotes operand token

/-- Whatever the operands are, the condition consists of the pieces with tokens for the operands. -/
def Weaves (d : Dialect) (op : Operator) (lhs : String) (count : Nat) (pieces : List String) : Prop :=
  ∀ (o : LayoutOptions) (column : Layout) (operands : List String) (l : Layout),
    column.render o = lhs → operands.length = count → d.operatorCondition column op operands = .ok l →
    ∃ tokens, List.Forall₂ (StandsFor d op) (op.used operands) tokens ∧
      pieces.length = tokens.length + 1 ∧ l.render o = weave pieces tokens

theorem single_eq_ok {op : Operator} {operands : List String} {value : String}
    (h : op.single operands = .ok value) : operands = [value] := by
  unfold Operator.single at h
  split at h
  · rw [Except.ok.inj h]
  · cases h

theorem pair_eq_ok {op : Operator} {operands : List String} {low high : String}
    (h : op.pair operands = .ok (low, high)) : operands = [low, high] := by
  unfold Operator.pair at h
  split at h
  · obtain ⟨rfl, rfl⟩ := Prod.mk.inj (Except.ok.inj h)
    rfl
  · cases h

def listPieces (first last : String) : Nat → List String
  | 0 => [first ++ last]
  | count + 1 => first :: (List.replicate count ", " ++ [last])

theorem length_listPieces (first last : String) (count : Nat) :
    (listPieces first last count).length = count + 1 := by
  cases count <;> simp [listPieces]

theorem weave_listPieces (first last : String) (tokens : List String) :
    weave (listPieces first last tokens.length) tokens = first ++ Text.join ", " tokens ++ last := by
  match tokens with
  | [] => simp [listPieces, weave, Text.join]
  | [t] => rfl
  | t :: u :: tokens =>
    have ih := weave_listPieces ", " last (u :: tokens)
    simp only [listPieces, List.length_cons] at ih ⊢
    rw [List.replicate_succ, List.cons_append, weave, ih]
    simp [Text.join, String.append_assoc]

namespace Weaves

variable {d : Dialect} {op : Operator} {lhs : String} {count : Nat}

theorem none (ha : op.arity = .none) (build : Layout → Layout)
    (hop : ∀ column operands, d.operatorCondition column op operands = .ok (build column))
    (hb : ∀ (o : LayoutOptions) column,
      (build column).render o = (build (ofText (column.render o))).render {}) :
    Weaves d op lhs count [(build (ofText lhs)).render {}] := by
  rintro o column operands l rfl _ h
  rw [hop] at h
  obtain rfl := Except.ok.inj h
  exact ⟨[], by simp [Operator.used, ha], rfl, hb o column⟩

theorem one (ha : op.arity = .one) (first last : String → String)
    (hop : ∀ column operands l, d.operatorCondition column op operands = .ok l →
      ∃ operand token, operands = [operand] ∧ StandsFor d op operand token ∧
        ∀ o : LayoutOptions, l.render o = first (column.render o) ++ token ++ last (column.render o)) :
    Weaves d op lhs count [first lhs, last lhs] := by
  rintro o column operands l rfl _ h
  obtain ⟨operand, token, rfl, ht, hl⟩ := hop column operands l h
  exact ⟨[token], by simpa [Operator.used, ha] using ht, rfl, hl o⟩

theorem single (ha : op.arity = .one) (pattern : String → String) (build : Layout → String → Layout)
    (first last : String → String)
    (hop : ∀ column operands, d.operatorCondition column op operands =
      op.single operands >>= fun v => .ok (build column (pattern v)))
    (hs : ∀ v, StandsFor d op v (literal (pattern v)))
    (hb : ∀ (o : LayoutOptions) column v, (build column v).render o =
      first (column.render o) ++ literal v ++ last (column.render o)) :
    Weaves d op lhs count [first lhs, last lhs] := by
  apply one ha first last
  intro column operands l h
  rw [hop] at h
  obtain ⟨value, hv, h⟩ := bind_eq_ok.1 h
  obtain rfl := Except.ok.inj h
  exact ⟨value, _, single_eq_ok hv, hs value, fun o => hb o column (pattern value)⟩

theorem compared (ha : op.arity = .one) (sign : String) (pattern : String → String)
    (hop : ∀ column operands, d.operatorCondition column op operands =
      op.single operands >>= fun v => .ok (column ++ ofText (" " ++ sign ++ " " ++ literal (pattern v))))
    (hs : ∀ v, StandsFor d op v (literal (pattern v))) :
    Weaves d op lhs count [lhs ++ " " ++ sign ++ " ", ""] :=
  single ha pattern (fun column v => column ++ ofText (" " ++ sign ++ " " ++ literal v))
    (fun s => s ++ " " ++ sign ++ " ") (fun _ => "") hop hs (by simp [String.append_assoc])

theorem counted (ha : op.arity = .one) (bound : Int → Int) (build : Layout → Int → Layout)
    (first last : String → String)
    (hop : ∀ column operands, d.operatorCondition column op operands =
      op.singleCount operands >>= fun n => .ok (build column n))
    (hs : ∀ operand n, Text.WritesInt64 operand n → StandsFor d op operand (toString (bound n)))
    (hb : ∀ (o : LayoutOptions) column n, (build column n).render o =
      first (column.render o) ++ toString (bound n) ++ last (column.render o)) :
    Weaves d op lhs count [first lhs, last lhs] := by
  apply one ha first last
  intro column operands l h
  rw [hop] at h
  obtain ⟨n, hn, h⟩ := bind_eq_ok.1 h
  obtain ⟨value, hv, hn⟩ := bind_eq_ok.1 hn
  obtain rfl := Except.ok.inj h
  exact ⟨value, _, single_eq_ok hv, hs value n (Operator.count_eq_ok_iff.1 hn), fun o => hb o column n⟩

theorem pair (ha : op.arity = .two) (build : Layout → String → String → Layout)
    (first middle last : String → String)
    (hop : ∀ column operands, d.operatorCondition column op operands =
      op.pair operands >>= fun v => .ok (build column v.1 v.2))
    (hs : ∀ v, StandsFor d op v (literal v))
    (hb : ∀ (o : LayoutOptions) column low high, (build column low high).render o =
      first (column.render o) ++ literal low ++ (middle (column.render o) ++ literal high ++
        last (column.render o))) :
    Weaves d op lhs count [first lhs, middle lhs, last lhs] := by
  rintro o column operands l rfl _ h
  rw [hop] at h
  obtain ⟨⟨low, high⟩, hp, h⟩ := bind_eq_ok.1 h
  obtain rfl := pair_eq_ok hp
  obtain rfl := Except.ok.inj h
  exact ⟨[literal low, literal high], by simp [Operator.used, ha, hs], rfl, hb o column low high⟩

theorem listed (ha : op.arity = .variadic) (sign : String)
    (hop : ∀ column operands, d.operatorCondition column op operands =
      .ok (column ++ ofText (" " ++ sign ++ " (" ++ literalList operands ++ ")")))
    (hs : ∀ v, StandsFor d op v (literal v)) :
    Weaves d op lhs count (listPieces (lhs ++ " " ++ sign ++ " (") ")" count) := by
  rintro o column operands l rfl rfl h
  rw [hop] at h
  obtain rfl := Except.ok.inj h
  refine ⟨operands.map literal, ?_, ?_, ?_⟩
  · simp [Operator.used, ha, List.forall₂_map_right_iff, List.forall₂_same, hs]
  · simp [length_listPieces]
  · have hw := weave_listPieces (column.render o ++ " " ++ sign ++ " (") ")" (operands.map literal)
    rw [List.length_map] at hw
    rw [hw, Layout.render_append, Layout.render_ofText, literalList]
    simp [String.append_assoc]

end Weaves

section

variable {lhs : String} {count : Nat}

theorem SqlServer.compareDay_weaves {op : Operator} (ha : op.arity = .one) (comparison : String)
    (hop : ∀ column operands, Dialect.sqlServer.operatorCondition column op operands =
      op.single operands >>= fun v => .ok (compareDay comparison v column))
    (hs : ∀ v, StandsFor .sqlServer op v (literal v)) :
    ∃ pieces, Weaves .sqlServer op lhs count pieces := by
  refine ⟨_, .single ha (fun v => v) (fun column v => compareDay comparison v column)
    (fun s => "DATEDIFF(day, " ++ s ++ ", ") (fun _ => ") " ++ comparison ++ " 0") hop hs
    fun o column v => ?_⟩
  simp [← String.toList_inj, compareDay]

theorem Postgres.compareDay_weaves {op : Operator} (ha : op.arity = .one) (comparison : String)
    (hop : ∀ column operands, Dialect.postgres.operatorCondition column op operands =
      op.single operands >>= fun v => .ok (compareDay comparison v column))
    (hs : ∀ v, StandsFor .postgres op v (literal v)) :
    ∃ pieces, Weaves .postgres op lhs count pieces := by
  refine ⟨_, .single ha (fun v => v) (fun column v => compareDay comparison v column) (fun _ => "")
    (fun s => "::date - " ++ s ++ "::date " ++ comparison ++ " 0") hop hs fun o column v => ?_⟩
  simp [← String.toList_inj, compareDay]

def SqlServer.textToNow (part : DatePart) (lhs : String) : String :=
  (partsToNow part (ofText lhs)).render {}

theorem SqlServer.dateCondition_weaves (op : Operator) (hop : ∀ column operands,
    Dialect.sqlServer.operatorCondition column op operands =
      SqlServer.dateCondition column op operands) :
    ∃ pieces, Weaves .sqlServer op lhs count pieces := by
  cases op with
  | today => exact ⟨_, .none rfl (sameDay · "GETDATE()") (fun _ _ => rfl) (by simp [sameDay])⟩
  | tomorrow =>
    exact ⟨_, .none rfl (sameDay · "DATEADD(day, 1, GETDATE())") (fun _ _ => rfl) (by simp [sameDay])⟩
  | yesterday =>
    exact ⟨_, .none rfl (sameDay · "DATEADD(day, -1, GETDATE())") (fun _ _ => rfl) (by simp [sameDay])⟩
  | on => exact compareDay_weaves rfl "=" (fun _ _ => rfl) literal_denotes
  | onOrBefore => exact compareDay_weaves rfl "<=" (fun _ _ => rfl) literal_denotes
  | onOrAfter => exact compareDay_weaves rfl ">=" (fun _ _ => rfl) literal_denotes
  | calendar part offset =>
    exact ⟨_, .none rfl (fun column => partsToNow part column ++ ofText (" = " ++ toString offset))
      (fun _ _ => rfl) (by simp [partsToNow])⟩
  | lastSevenDays =>
    exact ⟨_, .none rfl (aheadWindow .day 7) (fun _ _ => rfl) (by simp [aheadWindow, partsToNow])⟩
  | nextSevenDays =>
    exact ⟨_, .none rfl (behindWindow .day 7) (fun _ _ => rfl) (by simp [behindWindow, partsToNow])⟩
  | lastX part =>
    refine ⟨_, .counted rfl Text.negateInt64 (fun column n => aheadWindow part n column)
      (fun s => "(" ++ textToNow part s ++ " <= 0 and " ++ textToNow part s ++ " > ") (fun _ => ")")
      (fun _ _ => rfl) (fun _ n hn => ⟨n, hn, rfl⟩) fun o column n => ?_⟩
    simp [← String.toList_inj, textToNow, aheadWindow, partsToNow]
  | nextX part =>
    refine ⟨_, .counted rfl (fun n => n) (fun column n => behindWindow part n column)
      (fun s => "(" ++ textToNow part s ++ " >= 0 and " ++ textToNow part s ++ " < ") (fun _ => ")")
      (fun _ _ => rfl) (fun _ n hn => ⟨n, hn, rfl⟩) fun o column n => ?_⟩
    simp [← String.toList_inj, textToNow, behindWindow, partsToNow]
  | olderThanX part =>
    refine ⟨_, .counted rfl (fun n => n)
      (fun column n => partsToNow part column ++ ofText (" < " ++ toString n))
      (fun s => textToNow part s ++ " < ") (fun _ => "")
      (fun _ _ => rfl) (fun _ n hn => ⟨n, hn, rfl⟩) fun o column n => ?_⟩
    simp [← String.toList_inj, textToNow, partsToNow]
  | _ =>
    refine ⟨[], fun _ _ _ _ _ _ h => ?_⟩
    rw [hop] at h
    cases h

theorem Postgres.dateCondition_weaves (op : Operator) (hop : ∀ column operands,
    Dialect.postgres.operatorCondition column op operands =
      Postgres.dateCondition column op operands) :
    ∃ pieces, Weaves .postgres op lhs count pieces := by
  cases op with
  | today => exact ⟨_, .none rfl (· ++ ofText "::date = current_date") (fun _ _ => rfl) (by simp)⟩
  | tomorrow =>
    exact ⟨_, .none rfl (· ++ ofText "::date = current_date + 1") (fun _ _ => rfl) (by simp)⟩
  | yesterday =>
    exact ⟨_, .none rfl (· ++ ofText "::date = current_date - 1") (fun _ _ => rfl) (by simp)⟩
  | on => exact compareDay_weaves rfl "=" (fun _ _ => rfl) literal_denotes
  | onOrBefore => exact compareDay_weaves rfl "<=" (fun _ _ => rfl) literal_denotes
  | onOrAfter => exact compareDay_weaves rfl ">=" (fun _ _ => rfl) literal_denotes
  | calendar part offset =>
    exact ⟨_, .none rfl (fun column => ofText ("date_trunc('" ++ part.keyword ++ "', ") ++ column ++
      ofText (") = " ++ currentPart part offset)) (fun _ _ => rfl) (by simp)⟩
  | lastSevenDays =>
    exact ⟨_, .none rfl (aheadWindow · "interval '7 day'") (fun _ _ => rfl) (by simp [aheadWindow])⟩
  | nextSevenDays =>
    exact ⟨_, .none rfl (behindWindow · "interval '7 day'") (fun _ _ => rfl) (by simp [behindWindow])⟩
  | lastX part =>
    refine ⟨_, .counted rfl (fun n => n) (fun column n => aheadWindow column (units n part))
      (fun s => "(" ++ s ++ " >= now() and " ++ s ++ " < now() + ")
      (fun _ => " * interval '1 " ++ part.keyword ++ "')")
      (fun _ _ => rfl) (fun _ n hn => ⟨n, hn, rfl⟩) fun o column n => ?_⟩
    simp [← String.toList_inj, aheadWindow, units]
  | nextX part =>
    refine ⟨_, .counted rfl (fun n => n) (fun column n => behindWindow column (units n part))
      (fun s => "(" ++ s ++ " <= now() and " ++ s ++ " > now() - ")
      (fun _ => " * interval '1 " ++ part.keyword ++ "')")
      (fun _ _ => rfl) (fun _ n hn => ⟨n, hn, rfl⟩) fun o column n => ?_⟩
    simp [← String.toList_inj, behindWindow, units]
  | olderThanX part =>
    refine ⟨_, .counted rfl (fun n => n)
      (fun column n => column ++ ofText (" > now() - " ++ units n part))
      (fun s => s ++ " > now() - ") (fun _ => " * interval '1 " ++ part.keyword ++ "'")
      (fun _ _ => rfl) (fun _ n hn => ⟨n, hn, rfl⟩) fun o column n => ?_⟩
    simp [← String.toList_inj, units]
  | _ =>
    refine ⟨[], fun _ _ _ _ _ _ h => ?_⟩
    rw [hop] at h
    cases h

def compared (column : Layout) (sign value : String) : Layout :=
  column ++ ofText (" " ++ sign ++ " " ++ literal value)

theorem Dialect.operatorCondition_weaves (d : Dialect) (op : Operator) :
    ∃ pieces, Weaves d op lhs count pieces := by
  have hstart : ∀ v : String, quotedText? (literal (v ++ "%")) = some (v ++ "%") := by
    intro v
    rw [literal_of_percent (by simp), quotedText?_quoted]
  have hend : ∀ v : String, quotedText? (literal ("%" ++ v)) = some ("%" ++ v) := by
    intro v
    rw [literal_of_percent (by simp), quotedText?_quoted]
  cases op with
  | eq => exact ⟨_, .compared rfl "=" (fun v => v) (fun _ _ => rfl) literal_denotes⟩
  | ne | neq =>
    refine ⟨_, .single rfl (fun v => v)
      (fun column v =>
        ofText "(" ++ compared column "!=" v ++ ofText " or " ++ column ++ ofText " is null)")
      (fun s => "(" ++ s ++ " != ") (fun s => " or " ++ s ++ " is null)")
      (fun _ _ => rfl) literal_denotes fun o column v => ?_⟩
    simp [← String.toList_inj, compared]
  | lt => exact ⟨_, .compared rfl "<" (fun v => v) (fun _ _ => rfl) literal_denotes⟩
  | le => exact ⟨_, .compared rfl "<=" (fun v => v) (fun _ _ => rfl) literal_denotes⟩
  | gt => exact ⟨_, .compared rfl ">" (fun v => v) (fun _ _ => rfl) literal_denotes⟩
  | ge => exact ⟨_, .compared rfl ">=" (fun v => v) (fun _ _ => rfl) literal_denotes⟩
  | like => exact ⟨_, .compared rfl "like" (fun v => v) (fun _ _ => rfl) literal_denotes⟩
  | notLike => exact ⟨_, .compared rfl "not like" (fun v => v) (fun _ _ => rfl) literal_denotes⟩
  | beginsWith => exact ⟨_, .compared rfl "like" (· ++ "%") (fun _ _ => rfl) hstart⟩
  | notBeginWith => exact ⟨_, .compared rfl "not like" (· ++ "%") (fun _ _ => rfl) hstart⟩
  | endsWith => exact ⟨_, .compared rfl "like" ("%" ++ ·) (fun _ _ => rfl) hend⟩
  | notEndWith => exact ⟨_, .compared rfl "not like" ("%" ++ ·) (fun _ _ => rfl) hend⟩
  | null => exact ⟨_, .none rfl (· ++ ofText " is null") (fun _ _ => rfl) (by simp)⟩
  | notNull => exact ⟨_, .none rfl (· ++ ofText " is not null") (fun _ _ => rfl) (by simp)⟩
  | isIn => exact ⟨_, .listed rfl "in" (fun _ _ => rfl) literal_denotes⟩
  | notIn => exact ⟨_, .listed rfl "not in" (fun _ _ => rfl) literal_denotes⟩
  | between =>
    refine ⟨_, .pair rfl
      (fun column low high => ofText "(" ++ compared column ">=" low ++ ofText " and " ++
        compared column "<=" high ++ ofText ")")
      (fun s => "(" ++ s ++ " >= ") (fun s => " and " ++ s ++ " <= ") (fun _ => ")")
      (fun _ _ => rfl) literal_denotes fun o column low high => ?_⟩
    simp [← String.toList_inj, compared]
  | notBetween =>
    refine ⟨_, .pair rfl
      (fun column low high => ofText "(" ++ compared column "<" low ++ ofText " or " ++
        compared column ">" high ++ ofText ")")
      (fun s => "(" ++ s ++ " < ") (fun s => " or " ++ s ++ " > ") (fun _ => ")")
      (fun _ _ => rfl) literal_denotes fun o column low high => ?_⟩
    simp [← String.toList_inj, compared]
  | eqUserId =>
    exact ⟨_, .none rfl d.currentUser (fun _ _ => rfl) (by cases d <;> simp [Dialect.currentUser])⟩
  | _ =>
    cases d with
    | sqlServer => exact SqlServer.dateCondition_weaves _ fun _ _ => rfl
    | postgres => exact Postgres.dateCondition_weaves _ fun _ _ => rfl

end

/-- What a condition says besides the literals is settled by the dialect, the column, the operator and the
number of operands, and each literal stands for its operand. -/
theorem Dialect.condition_weaves (d : Dialect) (lhs id : String) (count : Nat) :
    ∃ pieces : List String, ∀ (o : LayoutOptions) (column : Layout) (operands : List String) (l : Layout),
      column.render o = lhs → operands.length = count → d.condition column id operands = .ok l →
      ∃ op tokens, Operator.ofId id = .ok op ∧ List.Forall₂ (StandsFor d op) (op.used operands) tokens ∧
        pieces.length = tokens.length + 1 ∧ l.render o = weave pieces tokens := by
  cases hop : Operator.ofId id with
  | error fault =>
    refine ⟨[], fun o column operands l _ _ h => ?_⟩
    obtain ⟨op, ho, _⟩ := bind_eq_ok.1 h
    rw [hop] at ho
    cases ho
  | ok op =>
    obtain ⟨pieces, hp⟩ : ∃ pieces, Weaves d op lhs count pieces := d.operatorCondition_weaves op
    refine ⟨pieces, fun o column operands l hl hc h => ?_⟩
    obtain ⟨op', ho, h⟩ := bind_eq_ok.1 h
    rw [hop] at ho
    obtain rfl := Except.ok.inj ho
    obtain ⟨_, _, h⟩ := bind_eq_ok.1 h
    obtain ⟨tokens, ht, hn, hw⟩ := hp o column operands l hl hc h
    exact ⟨op, tokens, rfl, ht, hn, hw⟩

theorem Dialect.condition_weaves_isIn :
    ∃ (pieces : List String) (l : Layout),
      Dialect.postgres.condition (ofText "x") "in"
        ["it's", "12.5", "{00000000-0000-0000-0000-00000000000A}"] = .ok l ∧
      l.render {} = "x in ('it''s', 12.5, '00000000-0000-0000-0000-00000000000a')" ∧
      ∃ op tokens, Operator.ofId "in" = .ok op ∧
        List.Forall₂ (StandsFor .postgres op)
          (op.used ["it's", "12.5", "{00000000-0000-0000-0000-00000000000A}"]) tokens ∧
        pieces.length = tokens.length + 1 ∧ l.render {} = weave pieces tokens := by
  obtain ⟨pieces, h⟩ := Dialect.condition_weaves .postgres "x" "in" 3
  refine ⟨pieces, _, rfl, by decide, ?_⟩
  exact h {} (ofText "x") ["it's", "12.5", "{00000000-0000-0000-0000-00000000000A}"] _ (by decide) rfl rfl

end Sql

end FetchQuery
