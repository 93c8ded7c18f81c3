import FetchQuery.Proofs.JsonNumber

namespace FetchQuery.Json

section

variable {α β : Type} {f : β → α → Option β} {b c : β} {as : List α}

theorem foldlM_cons_of {a : α} (h : f b a = some c) : (a :: as).foldlM f b = as.foldlM f c := by
  rw [List.foldlM_cons, h, Option.bind_eq_bind, Option.bind_some]

theorem foldlM_append_of {bs : List α} (h : as.foldlM f b = some c) :
    (as ++ bs).foldlM f b = bs.foldlM f c := by
  rw [List.foldlM_append, h, Option.bind_eq_bind, Option.bind_some]

theorem foldlM_singleton (a : α) : [a].foldlM f b = f b a := by
  rw [List.foldlM_cons]
  exact bind_pure _

end

mutual

def tokens : Json → List Token
  | null => [.null]
  | bool b => [.bool b]
  | number n => [.number (some n)]
  | string s => [.string (some s)]
  | array [] => [.openArray, .closeArray]
  | array (j :: js) => .openArray :: tokens j ++ tokensOfRest js ++ [.closeArray]
  | object [] => [.openObject, .closeObject]
  | object (m :: ms) => .openObject :: tokensOfMember m ++ tokensOfRestMembers ms ++ [.closeObject]

def tokensOfRest : List Json → List Token
  | [] => []
  | j :: js => .comma :: tokens j ++ tokensOfRest js

def tokensOfMember : String × Json → List Token
  | (key, j) => .string (some key) :: .colon :: tokens j

def tokensOfRestMembers : List (String × Json) → List Token
  | [] => []
  | m :: ms => .comma :: tokensOfMember m ++ tokensOfRestMembers ms

end

mutual

def numbers : Json → List Number
  | number n => [n]
  | array items => numbersOfAll items
  | object members => numbersOfMembers members
  | _ => []

def numbersOfAll : List Json → List Number
  | [] => []
  | j :: js => numbers j ++ numbersOfAll js

def numbersOfMembers : List (String × Json) → List Number
  | [] => []
  | m :: ms => numbersOfMember m ++ numbersOfMembers ms

def numbersOfMember : String × Json → List Number
  | (_, j) => numbers j

end

theorem numbersOfAll_eq (js : List Json) : numbersOfAll js = js.flatMap numbers := by
  induction js with
  | nil => rfl
  | cons j js ih => rw [numbersOfAll, ih, List.flatMap_cons]

theorem numbersOfMembers_eq (ms : List (String × Json)) : numbersOfMembers ms = ms.flatMap (·.2.numbers) := by
  induction ms with
  | nil => rfl
  | cons m ms ih => rw [numbersOfMembers, numbersOfMember, ih, List.flatMap_cons]

namespace StringItem

/-- What a character is scanned as: control characters are written by their numbers, apart from those
with an escape of their own. -/
def ofChar (c : Char) : StringItem :=
  if c < ' ' ∧ c ∉ ['\x08', '\x0c', '\n', '\r', '\t'] then unit c.toNat else char c

theorem chars?_unit {n : Nat} (h : isHigh n = false ∧ isLow n = false) (items : List StringItem) :
    chars? (unit n :: items) = (chars? items).map (Char.ofNat n :: ·) := by
  match items with
  | [] => simp [chars?, h]
  | char c :: items => simp [chars?, h]
  | unit m :: items => simp [chars?, h]

theorem chars?_ofChar (c : Char) (items : List StringItem) :
    chars? (ofChar c :: items) = (chars? items).map (c :: ·) := by
  unfold ofChar
  split
  next h =>
    have hc : c.toNat < 32 := h.1
    have hs : isHigh c.toNat = false ∧ isLow c.toNat = false := by
      simp only [isHigh, isLow, Bool.and_eq_false_iff, decide_eq_false_iff_not]
      omega
    rw [chars?_unit hs, Char.ofNat_toNat]
  next => rw [chars?]

theorem chars?_map_ofChar (cs : List Char) : chars? (cs.map ofChar) = some cs := by
  induction cs with
  | nil => rfl
  | cons c cs ih => rw [List.map_cons, chars?_ofChar, ih, Option.map_some]

end StringItem

namespace Token.Scan

theorem hexValue?_hexDigit {n : Nat} (h : n < 16) : Text.hexValue? (hexDigit n) = some n := by
  have hall : ∀ n < 16, Text.hexValue? (hexDigit n) = some n := by decide
  exact hall n h

theorem foldlM_escape (tokens : List Token) (seen : List StringItem) (c : Char) :
    (escape c).foldlM step ⟨tokens, .text seen⟩ = some ⟨tokens, .text (.ofChar c :: seen)⟩ := by
  by_cases hshort : c ∈ ['"', '\\', '\x08', '\x0c', '\n', '\r', '\t']
  · simp only [List.mem_cons, List.not_mem_nil, or_false] at hshort
    rcases hshort with rfl | rfl | rfl | rfl | rfl | rfl | rfl <;> rfl
  · simp only [List.mem_cons, List.not_mem_nil, or_false, not_or] at hshort
    obtain ⟨hquote, hslash, hb, hf, hn, hr, ht⟩ := hshort
    simp only [escape, if_neg hquote, if_neg hslash, if_neg hb, if_neg hf, if_neg hn, if_neg hr,
      if_neg ht]
    by_cases hc : c < ' '
    · have hlt : c.toNat < 32 := hc
      have hhigh := hexValue?_hexDigit (n := c.toNat / 16) (by omega)
      have hlow := hexValue?_hexDigit (n := c.toNat % 16) (by omega)
      have hzero : Text.hexValue? '0' = some 0 := rfl
      have hvalue : 16 * (c.toNat / 16) + c.toNat % 16 = c.toNat := Nat.div_add_mod c.toNat 16
      simp [step, hc, hzero, hhigh, hlow, hvalue, StringItem.ofChar, hb, hf, hn, hr, ht]
    · simp [step, hc, hquote, hslash, StringItem.ofChar]

theorem foldlM_flatMap_escape (tokens : List Token) (seen : List StringItem) (cs : List Char) :
    (cs.flatMap escape).foldlM step ⟨tokens, .text seen⟩ =
      some ⟨tokens, .text ((cs.map .ofChar).reverse ++ seen)⟩ := by
  induction cs generalizing seen with
  | nil => rfl
  | cons c cs ih =>
    rw [List.flatMap_cons, foldlM_append_of (foldlM_escape tokens seen c), ih, List.map_cons,
      List.reverse_cons, List.append_assoc, List.singleton_append]

theorem foldlM_stringChars (tokens : List Token) (s : String) :
    (stringChars s).foldlM step ⟨tokens, .between⟩ = some ⟨.string (some s) :: tokens, .between⟩ := by
  have hclose : ofString (s.toList.map StringItem.ofChar).reverse = .string (some s) := by
    rw [ofString, List.reverse_reverse, StringItem.chars?_map_ofChar, Option.map_some,
      String.ofList_toList]
  have hopen : step ⟨tokens, .between⟩ '"' = some ⟨tokens, .text []⟩ := rfl
  rw [stringChars, List.cons_append, foldlM_cons_of hopen, foldlM_append_of (foldlM_flatMap_escape tokens [] _),
    foldlM_singleton]
  simp [step, hclose]

def fresh (ts : List Token) : Scan := ⟨ts.reverse, .between⟩

theorem finish_fresh (ts : List Token) : (fresh ts).finish = some ts := by
  rw [fresh, finish, List.reverse_reverse]

/-- From the scan the characters lead to one that has seen the tokens. The last of them may still be
open; finishing the scan would close it. -/
def Sees (s : Scan) (cs : List Char) (ts : List Token) : Prop :=
  ∃ s', cs.foldlM step s = some s' ∧ s'.finish = some ts

def marks : List (Char × Token) :=
  [('[', .openArray), (']', .closeArray), ('{', .openObject), ('}', .closeObject), (',', .comma), (':', .colon)]

theorem start_mark {m : Char × Token} (h : m ∈ marks) (ts : List Token) :
    start ts m.1 = some ⟨m.2 :: ts, .between⟩ ∧ isWordChar m.1 = false ∧ isNumberChar m.1 = false := by
  simp only [marks, List.mem_cons, List.not_mem_nil, or_false] at h
  rcases h with rfl | rfl | rfl | rfl | rfl | rfl <;> exact ⟨rfl, by decide, by decide⟩

theorem step_mark {s : Scan} {ts : List Token} (hs : s.finish = some ts) {m : Char × Token}
    (h : m ∈ marks) : s.step m.1 = some (fresh (ts ++ [m.2])) := by
  obtain ⟨hstart, hword, hnumber⟩ := start_mark h ts.reverse
  have hfresh : fresh (ts ++ [m.2]) = ⟨m.2 :: ts.reverse, .between⟩ := by
    rw [fresh, List.reverse_append, List.reverse_singleton, List.singleton_append]
  rw [hfresh, ← hstart]
  obtain ⟨tokens, mode⟩ := s
  cases mode with
  | between =>
    obtain rfl := Option.some.inj hs
    rw [List.reverse_reverse, step]
  | word seen =>
    obtain ⟨t, ht, rfl⟩ := Option.map_eq_some_iff.1 hs
    simp [step, hword, ht]
  | number seen =>
    obtain ⟨t, ht, rfl⟩ := Option.map_eq_some_iff.1 hs
    simp [step, hnumber, ht]
  | text seen => cases hs
  | escape seen => cases hs
  | hex seen digits value => cases hs

theorem start_number {c : Char} (h : (c == '-' || Text.isAsciiDigit c) = true) (ts : List Token) :
    start ts c = some ⟨ts, .number [c]⟩ := by
  unfold start
  split
  case h_12 => exact if_pos (by simpa using h)
  all_goals exact absurd h (by decide)

/-- Once a number has begun, the characters that numbers are made of belong to it. -/
theorem foldlM_number {cs : List Char} (h : cs.all isNumberChar = true) (ts : List Token) (seen : List Char) :
    cs.foldlM step ⟨ts, .number seen⟩ = some ⟨ts, .number (cs.reverse ++ seen)⟩ := by
  induction cs generalizing seen with
  | nil => rfl
  | cons c cs ih =>
    rw [List.all_cons, Bool.and_eq_true] at h
    have hstep : step ⟨ts, .number seen⟩ c = some ⟨ts, .number (c :: seen)⟩ := by simp [step, h.1]
    rw [foldlM_cons_of hstep, ih h.2, List.reverse_cons, List.append_assoc, List.singleton_append]

namespace Sees

variable {s : Scan} {cs ds : List Char} {ts us : List Token}

theorem nil (h : s.finish = some ts) : Sees s [] (ts ++ []) :=
  ⟨s, rfl, by rw [h, List.append_nil]⟩

theorem append (h : Sees s cs ts) (hd : ∀ s', s'.finish = some ts → Sees s' ds us) :
    Sees s (cs ++ ds) us := by
  obtain ⟨s', hcs, hts⟩ := h
  obtain ⟨s'', hds, hus⟩ := hd s' hts
  exact ⟨s'', by rw [foldlM_append_of hcs, hds], hus⟩

theorem mark (hs : s.finish = some ts) {m : Char × Token} (hm : m ∈ marks)
    (h : Sees (fresh (ts ++ [m.2])) cs us) : Sees s (m.1 :: cs) us := by
  obtain ⟨s', hcs, hus⟩ := h
  exact ⟨s', by rw [foldlM_cons_of (step_mark hs hm), hcs], hus⟩

theorem enclosed {o c : Char × Token} (ho : o ∈ marks) (hc : c ∈ marks)
    (h : Sees (fresh (ts ++ [o.2])) cs (ts ++ [o.2] ++ us)) :
    Sees (fresh ts) (o.1 :: cs ++ [c.1]) (ts ++ (o.2 :: us ++ [c.2])) := by
  have hclose := h.append fun s' hs' => mark hs' hc (nil (finish_fresh _))
  have hopen := mark (finish_fresh ts) ho hclose
  simpa using hopen

theorem array (h : Sees (fresh (ts ++ [.openArray])) cs (ts ++ [.openArray] ++ us)) :
    Sees (fresh ts) ('[' :: cs ++ [']']) (ts ++ (.openArray :: us ++ [.closeArray])) :=
  enclosed (o := ('[', .openArray)) (c := (']', .closeArray)) (by decide) (by decide) h

theorem object (h : Sees (fresh (ts ++ [.openObject])) cs (ts ++ [.openObject] ++ us)) :
    Sees (fresh ts) ('{' :: cs ++ ['}']) (ts ++ (.openObject :: us ++ [.closeObject])) :=
  enclosed (o := ('{', .openObject)) (c := ('}', .closeObject)) (by decide) (by decide) h

theorem word {w : List Char} {t : Token} (hw : ofWord? w.reverse = some t)
    (h : w.foldlM step (fresh ts) = some ⟨ts.reverse, .word w.reverse⟩) : Sees (fresh ts) w (ts ++ [t]) := by
  refine ⟨_, h, ?_⟩
  simp [finish, hw]

theorem number {n : Number} (h : n.IsLegible) : Sees (fresh ts) n.chars (ts ++ [.number (some n)]) := by
  obtain ⟨hlead, hclass, hread⟩ := h
  refine ⟨⟨ts.reverse, .number n.chars.reverse⟩, ?_, ?_⟩
  · cases hn : n.chars with
    | nil => simp [hn] at hlead
    | cons c cs =>
      rw [hn, List.head?_cons, Option.any_some] at hlead
      rw [hn, List.all_cons, Bool.and_eq_true] at hclass
      have hstart : step (fresh ts) c = some ⟨ts.reverse, .number [c]⟩ := start_number hlead ts.reverse
      rw [foldlM_cons_of hstart, foldlM_number hclass.2, List.reverse_cons]
  · simp [finish, hread]

theorem string (s : String) (ts : List Token) :
    Sees (fresh ts) (stringChars s) (ts ++ [.string (some s)]) := by
  refine ⟨_, foldlM_stringChars ts.reverse s, ?_⟩
  simp [finish]

end Sees

end Token.Scan

open Token.Scan

mutual

theorem sees_chars (j : Json) (hj : ∀ n ∈ j.numbers, n.IsLegible) (ts : List Token) :
    Sees (fresh ts) j.chars (ts ++ j.tokens) := by
  match j with
  | null => exact .word rfl rfl
  | bool true => exact .word rfl rfl
  | bool false => exact .word rfl rfl
  | number n => exact .number (hj n List.mem_cons_self)
  | string s => exact .string s ts
  | array [] => exact .array (.nil (finish_fresh _))
  | array (j :: js) =>
    rw [numbers, numbersOfAll, List.forall_mem_append] at hj
    have hbody := (sees_chars j hj.1 (ts ++ [.openArray])).append fun s hs => sees_charsOfRest js hj.2 hs
    rw [List.append_assoc (ts ++ _)] at hbody
    exact hbody.array
  | object [] => exact .object (.nil (finish_fresh _))
  | object (m :: ms) =>
    rw [numbers, numbersOfMembers, List.forall_mem_append] at hj
    have hbody := (sees_charsOfMember m hj.1 (ts ++ [.openObject])).append
      fun s hs => sees_charsOfRestMembers ms hj.2 hs
    rw [List.append_assoc (ts ++ _)] at hbody
    exact hbody.object

theorem sees_charsOfRest (js : List Json) (hj : ∀ n ∈ numbersOfAll js, n.IsLegible) {s : Token.Scan}
    {ts : List Token} (hs : s.finish = some ts) : Sees s (charsOfRest js) (ts ++ tokensOfRest js) := by
  match js with
  | [] => exact .nil hs
  | j :: js =>
    rw [numbersOfAll, List.forall_mem_append] at hj
    have hvalue := (sees_chars j hj.1 (ts ++ [.comma])).append fun s hs => sees_charsOfRest js hj.2 hs
    have hcomma := hvalue.mark hs (m := (',', .comma)) (by decide)
    simpa [charsOfRest, tokensOfRest] using hcomma

theorem sees_charsOfMember (m : String × Json) (hm : ∀ n ∈ numbersOfMember m, n.IsLegible) (ts : List Token) :
    Sees (fresh ts) (charsOfMember m) (ts ++ tokensOfMember m) := by
  match m with
  | (key, j) =>
    have hmember := (Sees.string key ts).append fun s hs =>
      (sees_chars j hm _).mark hs (m := (':', .colon)) (by decide)
    simpa [charsOfMember, tokensOfMember] using hmember

theorem sees_charsOfRestMembers (ms : List (String × Json)) (hm : ∀ n ∈ numbersOfMembers ms, n.IsLegible)
    {s : Token.Scan} {ts : List Token} (hs : s.finish = some ts) :
    Sees s (charsOfRestMembers ms) (ts ++ tokensOfRestMembers ms) := by
  match ms with
  | [] => exact .nil hs
  | m :: ms =>
    rw [numbersOfMembers, List.forall_mem_append] at hm
    have hmember := (sees_charsOfMember m hm.1 (ts ++ [.comma])).append
      fun s hs => sees_charsOfRestMembers ms hm.2 hs
    have hcomma := hmember.mark hs (m := (',', .comma)) (by decide)
    simpa [charsOfRestMembers, tokensOfRestMembers] using hcomma

end

theorem scan_chars (j : Json) (hj : ∀ n ∈ j.numbers, n.IsLegible) : Token.scan j.chars = some j.tokens := by
  obtain ⟨s, hs, hf⟩ := sees_chars j hj []
  rw [fresh, List.reverse_nil] at hs
  rw [Token.scan, hs, Option.bind_some, hf, List.nil_append]

end FetchQuery.Json
