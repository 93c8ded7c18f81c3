import FetchQuery.Json.Reader
import FetchQuery.Proofs.JsonTokens

namespace FetchQuery.Json

namespace Reader

variable (ignored : String → Bool) (passing : Bool) (stack : List Frame)

def put (v : Json) : Option Reader := place ⟨stack, .value, passing⟩ v

def AwaitsValue (e : Expected) : Prop := e = .value ∨ e = .firstItem

def AwaitsKey (e : Expected) : Prop := e = .firstKey ∨ e = .key

theorem put_member (members : List (String × Json)) (key : String) (v : Json) (h : passing = true → stack ≠ []) :
    put passing (.member members key :: stack) v =
      some ⟨.object ((key, v) :: members) :: stack, .separator, passing⟩ := by
  cases stack with
  | nil =>
    cases passing with
    | false => rfl
    | true => exact absurd rfl (h rfl)
  | cons frame stack => rfl

theorem step_value {e : Expected} (he : AwaitsValue e) {t : Token} (ht : t ≠ .closeArray) :
    step ignored ⟨stack, e, passing⟩ t = readValue ⟨stack, e, passing⟩ t := by
  obtain rfl | rfl := he
  · rfl
  · exact if_neg ht

theorem foldlM_scalar {e : Expected} (he : AwaitsValue e) {t : Token} (ht : t ≠ .closeArray) {v : Json}
    (h : readValue ⟨stack, e, passing⟩ t = put passing stack v) :
    [t].foldlM (step ignored) ⟨stack, e, passing⟩ = put passing stack v := by
  rw [foldlM_singleton, step_value ignored passing stack he ht, h]

theorem step_openArray {e : Expected} (he : AwaitsValue e) (h : passing = true ∨ stack.length < maxNesting) :
    step ignored ⟨stack, e, passing⟩ .openArray = some ⟨.array [] :: stack, .firstItem, passing⟩ := by
  rw [step_value ignored passing stack he (by decide)]
  simp [readValue, push, h]

theorem step_openObject {e : Expected} (he : AwaitsValue e) (h : passing = true ∨ stack.length < maxNesting) :
    step ignored ⟨stack, e, passing⟩ .openObject = some ⟨.object [] :: stack, .firstKey, passing⟩ := by
  rw [step_value ignored passing stack he (by decide)]
  simp [readValue, push, h]

theorem step_key {e : Expected} (he : AwaitsKey e) (key : String) :
    step ignored ⟨stack, e, passing⟩ (.string (some key)) = some ⟨stack, .colon key, passing⟩ := by
  obtain rfl | rfl := he <;> cases passing <;> rfl

/-- Only in the outermost object the key decides whether its value is passed over. -/
theorem step_colon (members : List (String × Json)) {key : String} (h : stack = [] → ignored key = passing) :
    step ignored ⟨.object members :: stack, .colon key, passing⟩ .colon =
      some ⟨.member members key :: stack, .value, passing⟩ := by
  cases stack with
  | nil => simp [step, startMember, h rfl]
  | cons frame stack => rfl

theorem step_closeArray (items : List Json) :
    step ignored ⟨.array items :: stack, .separator, passing⟩ .closeArray =
      put passing stack (.array items.reverse) :=
  rfl

theorem step_closeObject (members : List (String × Json)) :
    step ignored ⟨.object members :: stack, .separator, passing⟩ .closeObject =
      put passing stack (.object members.reverse) :=
  rfl

end Reader

open Reader

/-- No value of the outermost object is passed over. -/
def Keeps (ignored : String → Bool) : Json → Prop
  | object members => ∀ m ∈ members, ignored m.1 = false
  | _ => True

variable (ignored : String → Bool)

mutual

theorem foldlM_tokens (j : Json) (stack : List Frame) {e : Expected} (he : AwaitsValue e)
    (hn : stack.length + j.nesting ≤ maxNesting) (hk : stack = [] → Keeps ignored j) :
    j.tokens.foldlM (step ignored) ⟨stack, e, false⟩ = put false stack j := by
  match j with
  | null => exact foldlM_scalar ignored false stack he (by nofun) rfl
  | bool b => exact foldlM_scalar ignored false stack he (by nofun) rfl
  | number n => exact foldlM_scalar ignored false stack he (by nofun) rfl
  | string s => exact foldlM_scalar ignored false stack he (by nofun) rfl
  | array [] =>
    rw [tokens, foldlM_cons_of (step_openArray ignored false stack he (.inr (by rw [nesting] at hn; omega))),
      foldlM_singleton]
    rfl
  | array (j :: js) =>
    rw [nesting, nestingOfAll] at hn
    have hopen := step_openArray ignored false stack he (.inr (by omega))
    have hfirst := foldlM_tokens j (.array [] :: stack) (.inr rfl) (by rw [List.length_cons]; omega) nofun
    have hrest := foldlM_tokensOfRest js stack [j] (by omega)
    rw [tokens, List.cons_append, List.cons_append, foldlM_cons_of hopen, List.append_assoc,
      foldlM_append_of hfirst, foldlM_append_of hrest, foldlM_singleton, step_closeArray, List.reverse_append,
      List.reverse_reverse, List.reverse_singleton, List.singleton_append]
  | object [] =>
    rw [tokens, foldlM_cons_of (step_openObject ignored false stack he (.inr (by rw [nesting] at hn; omega))),
      foldlM_singleton]
    rfl
  | object (m :: ms) =>
    rw [nesting, nestingOfMembers] at hn
    have hopen := step_openObject ignored false stack he (.inr (by omega))
    have hfirst := foldlM_tokensOfMember m stack [] (.inl rfl) (by omega)
      fun h => hk h m List.mem_cons_self
    have hrest := foldlM_tokensOfRestMembers ms stack [m] (by omega)
      fun h n hm => hk h n (List.mem_cons_of_mem m hm)
    rw [tokens, List.cons_append, List.cons_append, foldlM_cons_of hopen, List.append_assoc,
      foldlM_append_of hfirst, foldlM_append_of hrest, foldlM_singleton, step_closeObject, List.reverse_append,
      List.reverse_reverse, List.reverse_singleton, List.singleton_append]

theorem foldlM_tokensOfRest (js : List Json) (stack : List Frame) (items : List Json)
    (hn : stack.length + 1 + nestingOfAll js ≤ maxNesting) :
    (tokensOfRest js).foldlM (step ignored) ⟨.array items :: stack, .separator, false⟩ =
      some ⟨.array (js.reverse ++ items) :: stack, .separator, false⟩ := by
  match js with
  | [] => rfl
  | j :: js =>
    rw [nestingOfAll] at hn
    have hcomma : step ignored ⟨.array items :: stack, .separator, false⟩ .comma =
        some ⟨.array items :: stack, .value, false⟩ := rfl
    have hvalue := foldlM_tokens j (.array items :: stack) (.inl rfl) (by rw [List.length_cons]; omega) nofun
    rw [tokensOfRest, List.cons_append, foldlM_cons_of hcomma, foldlM_append_of hvalue,
      foldlM_tokensOfRest js stack (j :: items) (by omega), List.reverse_cons, List.append_assoc,
      List.singleton_append]

theorem foldlM_tokensOfMember (m : String × Json) (stack : List Frame) (members : List (String × Json))
    {e : Expected} (he : AwaitsKey e) (hn : stack.length + 1 + nestingOfMember m ≤ maxNesting)
    (hk : stack = [] → ignored m.1 = false) :
    (tokensOfMember m).foldlM (step ignored) ⟨.object members :: stack, e, false⟩ =
      some ⟨.object (m :: members) :: stack, .separator, false⟩ := by
  match m with
  | (key, j) =>
    rw [nestingOfMember] at hn
    have hvalue := foldlM_tokens j (.member members key :: stack) (.inl rfl)
      (by rw [List.length_cons]; omega) nofun
    rw [tokensOfMember, foldlM_cons_of (step_key ignored false _ he key),
      foldlM_cons_of (step_colon ignored false stack members hk), hvalue, put_member false stack members key j nofun]

theorem foldlM_tokensOfRestMembers (ms : List (String × Json)) (stack : List Frame)
    (members : List (String × Json)) (hn : stack.length + 1 + nestingOfMembers ms ≤ maxNesting)
    (hk : stack = [] → ∀ m ∈ ms, ignored m.1 = false) :
    (tokensOfRestMembers ms).foldlM (step ignored) ⟨.object members :: stack, .separator, false⟩ =
      some ⟨.object (ms.reverse ++ members) :: stack, .separator, false⟩ := by
  match ms with
  | [] => rfl
  | m :: ms =>
    rw [nestingOfMembers] at hn
    have hcomma : step ignored ⟨.object members :: stack, .separator, false⟩ .comma =
        some ⟨.object members :: stack, .key, false⟩ := rfl
    have hmember := foldlM_tokensOfMember m stack members (.inr rfl) (by omega)
      fun h => hk h m List.mem_cons_self
    rw [tokensOfRestMembers, List.cons_append, foldlM_cons_of hcomma, foldlM_append_of hmember,
      foldlM_tokensOfRestMembers ms stack (m :: members) (by omega)
        fun h n hm => hk h n (List.mem_cons_of_mem m hm),
      List.reverse_cons, List.append_assoc, List.singleton_append]

end

/-- A value that nests no deeper than the reader allows, and whose numbers can be read back, is read from
its text, if no member of the outermost object is passed over. -/
theorem parseIgnoring_text (j : Json) (hl : ∀ n ∈ j.numbers, n.IsLegible) (hn : j.nesting ≤ maxNesting)
    (hk : Keeps ignored j) : parseIgnoring ignored j.text = some j := by
  have hread := foldlM_tokens ignored j [] (.inl rfl) (by rw [List.length_nil]; omega) fun _ => hk
  rw [parseIgnoring, text, String.toList_ofList, scan_chars j hl, Option.bind_some, ofTokens?, start, hread]
  rfl

end FetchQuery.Json
