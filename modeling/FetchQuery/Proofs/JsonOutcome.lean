import FetchQuery.Json.Record
import FetchQuery.Proofs.JsonReading

namespace FetchQuery.Json

section

variable {α β : Type} {f : β → α → Option β} {b : β} {as : List α}

theorem foldlM_cons_none {a : α} (h : f b a = none) : (a :: as).foldlM f b = none := by
  rw [List.foldlM_cons, h]
  rfl

theorem foldlM_append_none {bs : List α} (h : as.foldlM f b = none) : (as ++ bs).foldlM f b = none := by
  rw [List.foldlM_append, h]
  rfl

end

open Reader

variable (ignored : String → Bool)

mutual

/-- In a member that is passed over, a value of any depth is read to its end. -/
theorem passes_tokens (j : Json) (stack : List Frame) (hs : stack ≠ []) {e : Expected} (he : AwaitsValue e) :
    ∃ v, j.tokens.foldlM (step ignored) ⟨stack, e, true⟩ = put true stack v := by
  match j with
  | null => exact ⟨_, foldlM_scalar ignored true stack he (by nofun) rfl⟩
  | bool b => exact ⟨_, foldlM_scalar ignored true stack he (by nofun) rfl⟩
  | number n => exact ⟨_, foldlM_scalar ignored true stack he (by nofun) rfl⟩
  | string s => exact ⟨_, foldlM_scalar ignored true stack he (by nofun) rfl⟩
  | array [] =>
    refine ⟨.array [], ?_⟩
    rw [tokens, foldlM_cons_of (step_openArray ignored true stack he (.inl rfl)), foldlM_singleton]
    rfl
  | array (j :: js) =>
    obtain ⟨v, hfirst⟩ := passes_tokens j (.array [] :: stack) nofun (.inr rfl)
    obtain ⟨items, hrest⟩ := passes_tokensOfRest js stack [v]
    refine ⟨.array items.reverse, ?_⟩
    rw [tokens, List.cons_append, List.cons_append,
      foldlM_cons_of (step_openArray ignored true stack he (.inl rfl)), List.append_assoc,
      foldlM_append_of hfirst, foldlM_append_of hrest, foldlM_singleton, step_closeArray]
  | object [] =>
    refine ⟨.object [], ?_⟩
    rw [tokens, foldlM_cons_of (step_openObject ignored true stack he (.inl rfl)), foldlM_singleton]
    rfl
  | object (m :: ms) =>
    obtain ⟨first, hfirst⟩ := passes_tokensOfMember m stack hs [] (.inl rfl)
    obtain ⟨members, hrest⟩ := passes_tokensOfRestMembers ms stack hs first
    refine ⟨.object members.reverse, ?_⟩
    rw [tokens, List.cons_append, List.cons_append,
      foldlM_cons_of (step_openObject ignored true stack he (.inl rfl)), List.append_assoc,
      foldlM_append_of hfirst, foldlM_append_of hrest, foldlM_singleton, step_closeObject]

theorem passes_tokensOfRest (js : List Json) (stack : List Frame) (items : List Json) :
    ∃ all, (tokensOfRest js).foldlM (step ignored) ⟨.array items :: stack, .separator, true⟩ =
      some ⟨.array all :: stack, .separator, true⟩ := by
  match js with
  | [] => exact ⟨items, rfl⟩
  | j :: js =>
    have hcomma : step ignored ⟨.array items :: stack, .separator, true⟩ .comma =
        some ⟨.array items :: stack, .value, true⟩ := rfl
    obtain ⟨v, hvalue⟩ := passes_tokens j (.array items :: stack) nofun (.inl rfl)
    obtain ⟨all, hrest⟩ := passes_tokensOfRest js stack (v :: items)
    refine ⟨all, ?_⟩
    rw [tokensOfRest, List.cons_append, foldlM_cons_of hcomma, foldlM_append_of hvalue, hrest]

theorem passes_tokensOfMember (m : String × Json) (stack : List Frame) (hs : stack ≠ [])
    (members : List (String × Json)) {e : Expected} (he : AwaitsKey e) :
    ∃ all, (tokensOfMember m).foldlM (step ignored) ⟨.object members :: stack, e, true⟩ =
      some ⟨.object all :: stack, .separator, true⟩ := by
  match m with
  | (key, j) =>
    obtain ⟨v, hvalue⟩ := passes_tokens j (.member members key :: stack) nofun (.inl rfl)
    refine ⟨(key, v) :: members, ?_⟩
    rw [tokensOfMember, foldlM_cons_of (step_key ignored true _ he key),
      foldlM_cons_of (step_colon ignored true stack members fun h => absurd h hs), hvalue,
      put_member true stack members key v fun _ => hs]

theorem passes_tokensOfRestMembers (ms : List (String × Json)) (stack : List Frame) (hs : stack ≠ [])
    (members : List (String × Json)) :
    ∃ all, (tokensOfRestMembers ms).foldlM (step ignored) ⟨.object members :: stack, .separator, true⟩ =
      some ⟨.object all :: stack, .separator, true⟩ := by
  match ms with
  | [] => exact ⟨members, rfl⟩
  | m :: ms =>
    have hcomma : step ignored ⟨.object members :: stack, .separator, true⟩ .comma =
        some ⟨.object members :: stack, .key, true⟩ := rfl
    obtain ⟨first, hmember⟩ := passes_tokensOfMember m stack hs members (.inr rfl)
    obtain ⟨all, hrest⟩ := passes_tokensOfRestMembers ms stack hs first
    refine ⟨all, ?_⟩
    rw [tokensOfRestMembers, List.cons_append, foldlM_cons_of hcomma, foldlM_append_of hmember, hrest]

end

theorem step_open_full (stack : List Frame) {e : Expected} (he : AwaitsValue e) (h : ¬ stack.length < maxNesting)
    {t : Token} (ht : t = .openArray ∨ t = .openObject) : step ignored ⟨stack, e, false⟩ t = none := by
  obtain rfl | rfl := ht
  all_goals
    rw [step_value ignored false stack he (by decide)]
    simp [readValue, push, h]

mutual

theorem refuses_tokens (j : Json) (stack : List Frame) {e : Expected} (he : AwaitsValue e)
    (hs : stack.length ≤ maxNesting) (hn : maxNesting < stack.length + j.nesting)
    (hk : stack = [] → Keeps ignored j) : j.tokens.foldlM (step ignored) ⟨stack, e, false⟩ = none := by
  match j with
  | null | bool _ | number _ | string _ =>
    simp only [nesting] at hn
    omega
  | array [] =>
    rw [nesting, nestingOfAll] at hn
    exact foldlM_cons_none (step_open_full ignored stack he (by omega) (.inl rfl))
  | array (j :: js) =>
    rw [nesting, nestingOfAll] at hn
    rw [tokens, List.cons_append, List.cons_append]
    by_cases hfull : stack.length < maxNesting
    · rw [foldlM_cons_of (step_openArray ignored false stack he (.inr hfull)), List.append_assoc]
      -- either the first value nests too deep already, or it is read and some later one does
      by_cases hj : stack.length + 1 + j.nesting ≤ maxNesting
      · rw [foldlM_append_of (foldlM_tokens ignored j (.array [] :: stack) (.inr rfl) hj nofun)]
        exact foldlM_append_none (refuses_tokensOfRest js stack [j] hfull (by omega))
      · exact foldlM_append_none (refuses_tokens j (.array [] :: stack) (.inr rfl) hfull (Nat.lt_of_not_le hj) nofun)
    · exact foldlM_cons_none (step_open_full ignored stack he hfull (.inl rfl))
  | object [] =>
    rw [nesting, nestingOfMembers] at hn
    exact foldlM_cons_none (step_open_full ignored stack he (by omega) (.inr rfl))
  | object (m :: ms) =>
    rw [nesting, nestingOfMembers] at hn
    rw [tokens, List.cons_append, List.cons_append]
    by_cases hfull : stack.length < maxNesting
    · have hfirst := fun h => hk h m List.mem_cons_self
      rw [foldlM_cons_of (step_openObject ignored false stack he (.inr hfull)), List.append_assoc]
      by_cases hm : stack.length + 1 + nestingOfMember m ≤ maxNesting
      · rw [foldlM_append_of (foldlM_tokensOfMember ignored m stack [] (.inl rfl) hm hfirst)]
        exact foldlM_append_none (refuses_tokensOfRestMembers ms stack [m] hfull (by omega)
          fun h n hn => hk h n (List.mem_cons_of_mem m hn))
      · exact foldlM_append_none (refuses_tokensOfMember m stack [] (.inl rfl) hfull (by omega) hfirst)
    · exact foldlM_cons_none (step_open_full ignored stack he hfull (.inr rfl))

theorem refuses_tokensOfRest (js : List Json) (stack : List Frame) (items : List Json)
    (hs : stack.length < maxNesting) (hn : maxNesting < stack.length + 1 + nestingOfAll js) :
    (tokensOfRest js).foldlM (step ignored) ⟨.array items :: stack, .separator, false⟩ = none := by
  match js with
  | [] =>
    rw [nestingOfAll] at hn
    omega
  | j :: js =>
    rw [nestingOfAll] at hn
    have hcomma : step ignored ⟨.array items :: stack, .separator, false⟩ .comma =
        some ⟨.array items :: stack, .value, false⟩ := rfl
    rw [tokensOfRest, List.cons_append, foldlM_cons_of hcomma]
    by_cases hj : stack.length + 1 + j.nesting ≤ maxNesting
    · rw [foldlM_append_of (foldlM_tokens ignored j (.array items :: stack) (.inl rfl) hj nofun)]
      exact refuses_tokensOfRest js stack (j :: items) hs (by omega)
    · exact foldlM_append_none (refuses_tokens j (.array items :: stack) (.inl rfl) hs (Nat.lt_of_not_le hj) nofun)

theorem refuses_tokensOfMember (m : String × Json) (stack : List Frame) (members : List (String × Json))
    {e : Expected} (he : AwaitsKey e) (hs : stack.length < maxNesting)
    (hn : maxNesting < stack.length + 1 + nestingOfMember m) (hk : stack = [] → ignored m.1 = false) :
    (tokensOfMember m).foldlM (step ignored) ⟨.object members :: stack, e, false⟩ = none := by
  match m with
  | (key, j) =>
    rw [nestingOfMember] at hn
    rw [tokensOfMember, foldlM_cons_of (step_key ignored false _ he key),
      foldlM_cons_of (step_colon ignored false stack members hk)]
    exact refuses_tokens j (.member members key :: stack) (.inl rfl) hs hn nofun

theorem refuses_tokensOfRestMembers (ms : List (String × Json)) (stack : List Frame)
    (members : List (String × Json)) (hs : stack.length < maxNesting)
    (hn : maxNesting < stack.length + 1 + nestingOfMembers ms) (hk : stack = [] → ∀ m ∈ ms, ignored m.1 = false) :
    (tokensOfRestMembers ms).foldlM (step ignored) ⟨.object members :: stack, .separator, false⟩ = none := by
  match ms with
  | [] =>
    rw [nestingOfMembers] at hn
    omega
  | m :: ms =>
    rw [nestingOfMembers] at hn
    have hcomma : step ignored ⟨.object members :: stack, .separator, false⟩ .comma =
        some ⟨.object members :: stack, .key, false⟩ := rfl
    have hfirst := fun h => hk h m List.mem_cons_self
    rw [tokensOfRestMembers, List.cons_append, foldlM_cons_of hcomma]
    by_cases hm : stack.length + 1 + nestingOfMember m ≤ maxNesting
    · rw [foldlM_append_of (foldlM_tokensOfMember ignored m stack members (.inr rfl) hm hfirst)]
      exact refuses_tokensOfRestMembers ms stack (m :: members) hs (by omega)
        fun h n hn => hk h n (List.mem_cons_of_mem m hn)
    · exact foldlM_append_none (refuses_tokensOfMember m stack members (.inr rfl) hs (by omega) hfirst)

end

theorem nestingOfMembers_append (ms ns : List (String × Json)) :
    nestingOfMembers (ms ++ ns) = max (nestingOfMembers ms) (nestingOfMembers ns) := by
  induction ms with
  | nil => simp [nestingOfMembers]
  | cons m ms ih =>
    rw [List.cons_append, nestingOfMembers, nestingOfMembers, ih]
    omega

def keptMembers (members : List (String × Json)) : List (String × Json) := members.filter (!ignored ·.1)

/-- The value without the members that are passed over. -/
def kept : Json → Json
  | object members => object (keptMembers ignored members)
  | j => j

theorem foldlM_passedMember (m : String × Json) (members : List (String × Json)) {e : Expected} (he : AwaitsKey e)
    (h : ignored m.1 = true) :
    (tokensOfMember m).foldlM (step ignored) ⟨[.object members], e, false⟩ =
      some ⟨[.object members], .separator, false⟩ := by
  obtain ⟨key, j⟩ := m
  have hcolon : step ignored ⟨[.object members], .colon key, false⟩ .colon =
      some ⟨[.member members key], .value, true⟩ := by simp [step, startMember, h]
  obtain ⟨v, hvalue⟩ := passes_tokens ignored j [.member members key] (List.cons_ne_nil _ _) (.inl rfl)
  rw [tokensOfMember, foldlM_cons_of (step_key ignored false _ he key), foldlM_cons_of hcolon, hvalue]
  rfl

theorem foldlM_rootMember (m : String × Json) (members : List (String × Json)) {e : Expected} (he : AwaitsKey e) :
    (tokensOfMember m).foldlM (step ignored) ⟨[.object members], e, false⟩ =
      if nestingOfMembers (keptMembers ignored [m]) < maxNesting then
        some ⟨[.object ((keptMembers ignored [m]).reverse ++ members)], .separator, false⟩
      else none := by
  by_cases hi : ignored m.1 = true
  · have hkept : keptMembers ignored [m] = [] := by simp [keptMembers, hi]
    rw [hkept, if_pos (by decide)]
    exact foldlM_passedMember ignored m members he hi
  · have hkept : keptMembers ignored [m] = [m] := by simp [keptMembers, hi]
    have hkeep : ([] : List Frame) = [] → ignored m.1 = false := fun _ => Bool.eq_false_of_not_eq_true hi
    rw [hkept, nestingOfMembers, nestingOfMembers]
    by_cases hn : max (nestingOfMember m) 0 < maxNesting
    · rw [if_pos hn]
      exact foldlM_tokensOfMember ignored m [] members he (by rw [List.length_nil]; omega) hkeep
    · rw [if_neg hn]
      exact refuses_tokensOfMember ignored m [] members he (by decide) (by rw [List.length_nil]; omega) hkeep

theorem keptMembers_cons (m : String × Json) (ms : List (String × Json)) :
    keptMembers ignored (m :: ms) = keptMembers ignored [m] ++ keptMembers ignored ms := by
  rw [keptMembers, keptMembers, keptMembers, ← List.filter_append, List.singleton_append]

theorem foldlM_rootMembers (m : String × Json) (ms members : List (String × Json)) {e : Expected}
    (he : AwaitsKey e) :
    (tokensOfMember m ++ tokensOfRestMembers ms).foldlM (step ignored) ⟨[.object members], e, false⟩ =
      if nestingOfMembers (keptMembers ignored (m :: ms)) < maxNesting then
        some ⟨[.object ((keptMembers ignored (m :: ms)).reverse ++ members)], .separator, false⟩
      else none := by
  induction ms generalizing m members e with
  | nil => rw [tokensOfRestMembers, List.append_nil, foldlM_rootMember ignored m members he]
  | cons n ms ih =>
    have hcomma : ∀ members, step ignored ⟨[.object members], .separator, false⟩ .comma =
        some ⟨[.object members], .key, false⟩ := fun _ => rfl
    rw [List.foldlM_append, foldlM_rootMember ignored m members he, keptMembers_cons ignored m (n :: ms),
      nestingOfMembers_append, tokensOfRestMembers, List.cons_append]
    by_cases hm : nestingOfMembers (keptMembers ignored [m]) < maxNesting
    · rw [if_pos hm, Option.bind_eq_bind, Option.bind_some, foldlM_cons_of (hcomma _), ih n _ (.inr rfl)]
      by_cases hr : nestingOfMembers (keptMembers ignored (n :: ms)) < maxNesting
      · rw [if_pos hr, if_pos (by omega), List.reverse_append, List.append_assoc]
      · rw [if_neg hr, if_neg (by omega)]
    · rw [if_neg hm, if_neg (by omega)]
      rfl

theorem foldlM_rootObject (members : List (String × Json)) :
    (tokens (object members)).foldlM (step ignored) start =
      if nestingOfMembers (keptMembers ignored members) < maxNesting then
        put false [] (object (keptMembers ignored members))
      else none := by
  have hopen := step_openObject ignored false [] (e := .value) (.inl rfl) (.inr (by decide))
  cases members with
  | nil => rfl
  | cons m ms =>
    rw [tokens, List.cons_append, List.cons_append, start, foldlM_cons_of hopen, List.foldlM_append,
      foldlM_rootMembers ignored m ms [] (.inl rfl)]
    by_cases hn : nestingOfMembers (keptMembers ignored (m :: ms)) < maxNesting
    · rw [if_pos hn, if_pos hn, Option.bind_eq_bind, Option.bind_some, foldlM_singleton, step_closeObject,
        List.append_nil, List.reverse_reverse]
    · rw [if_neg hn, if_neg hn]
      rfl

theorem foldlM_rootKept {j : Json} (hk : Keeps ignored j) :
    j.tokens.foldlM (step ignored) start = if j.nesting ≤ maxNesting then put false [] j else none := by
  by_cases hn : j.nesting ≤ maxNesting
  · rw [if_pos hn]
    exact foldlM_tokens ignored j [] (.inl rfl) (by rw [List.length_nil]; omega) fun _ => hk
  · rw [if_neg hn]
    exact refuses_tokens ignored j [] (.inl rfl) (Nat.zero_le _) (by rw [List.length_nil]; omega) fun _ => hk

/-- A value is read from its tokens without the members that are passed over, unless what is left nests too
deep. -/
theorem ofTokens?_tokens (j : Json) :
    ofTokens? ignored j.tokens =
      if (j.kept ignored).nesting ≤ maxNesting then some (j.kept ignored) else none := by
  have hrun : j.tokens.foldlM (step ignored) start =
      if (j.kept ignored).nesting ≤ maxNesting then put false [] (j.kept ignored) else none := by
    cases j with
    | object members => exact foldlM_rootObject ignored members
    | null | bool _ | number _ | string _ | array _ => exact foldlM_rootKept ignored trivial
  rw [ofTokens?, hrun]
  by_cases hn : (j.kept ignored).nesting ≤ maxNesting
  · rw [if_pos hn, if_pos hn]
    rfl
  · rw [if_neg hn, if_neg hn]
    rfl

section

variable {ignored}

theorem member?_keptMembers {key : String} (h : ignored key = false) (ms : List (String × Json)) :
    member? (keptMembers ignored ms) key = member? ms key := by
  have hfilter : (keptMembers ignored ms).filter (fun m => m.1 == key) = ms.filter (fun m => m.1 == key) := by
    rw [keptMembers, List.filter_filter]
    apply List.filter_congr
    intro m _
    by_cases hk : m.1 = key <;> simp [hk, h]
  rw [member?, member?, hfilter]

/-- Fields are found all the same when no member that could hold one is passed over. -/
theorem namedFields_keptMembers {names : List String} (h : ∀ name ∈ names, ignored name = false)
    (ms : List (String × Json)) :
    namedFields names (.object (keptMembers ignored ms)) = namedFields names (.object ms) := by
  rw [namedFields, namedFields]
  induction names with
  | nil => rfl
  | cons name names ih =>
    rw [List.forall_mem_cons] at h
    rw [List.mapM_cons, List.mapM_cons, member?_keptMembers h.1, ih h.2]

end

/-- The text is a way to write the value, with any blanks between its tokens and any escapes in its strings. -/
def Spells (s : String) (j : Json) : Prop := Token.scan s.toList = some j.tokens

theorem spells_text (j : Json) (hl : ∀ n ∈ j.numbers, n.IsLegible) : Spells j.text j := by
  rw [Spells, text, String.toList_ofList, scan_chars j hl]

theorem parseIgnoring_of_spells {s : String} {j : Json} (h : Spells s j) :
    parseIgnoring ignored s =
      if (j.kept ignored).nesting ≤ maxNesting then some (j.kept ignored) else none := by
  rw [parseIgnoring, h, Option.bind_some, ofTokens?_tokens]

end FetchQuery.Json
