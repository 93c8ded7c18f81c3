import FetchQuery.Sql.Dialect
import FetchQuery.Text.Blank

namespace FetchQuery.Sql

/-- Outside of quotes, with the character before; inside a quote; or at the end of a quote, which goes
on if its closing character follows once more. -/
inductive Reading where
  | outside (previous : Char)
  | quoted (close : Char)
  | closing (close : Char)
  deriving DecidableEq

/-- `depth` counts the open parentheses, and a scan is broken once it met something that it must not
meet outside of quotes. -/
structure Scan where
  reading : Reading := .outside ' '
  depth : Nat := 0
  broken : Bool := false
  deriving DecidableEq

/-- The character that closes the quote which `c` opens. -/
def Dialect.closer? (d : Dialect) (c : Char) : Option Char :=
  if c = '\x27' then some '\x27'
  else match d with
    | sqlServer => if c = '[' then some ']' else none
    | postgres => if c = '"' then some '"' else none

def opensComment (previous c : Char) : Bool :=
  (c == '-' && previous == '-') || (c == '*' && previous == '/')

namespace Scan

variable (d : Dialect) (barred : Nat → Char → Bool)

def outside (s : Scan) (previous c : Char) : Scan :=
  match d.closer? c with
  | some close => { s with reading := .quoted close }
  | none =>
    if c = '(' then { s with reading := .outside c, depth := s.depth + 1 }
    else if c = ')' then ⟨.outside c, s.depth - 1, s.broken || s.depth == 0⟩
    else ⟨.outside c, s.depth, s.broken || opensComment previous c || barred s.depth c⟩

/-- One character on. `barred` tells which characters must not stand outside of quotes at a depth; the
start of a comment and a parenthesis that closes nothing must not stand there at all. -/
def step (s : Scan) (c : Char) : Scan :=
  match s.reading with
  | .outside previous => s.outside d barred previous c
  | .quoted close => { s with reading := if c = close then .closing close else .quoted close }
  | .closing close =>
    if c = close then { s with reading := .quoted close } else s.outside d barred close c

def run (s : Scan) (cs : List Char) : Scan := cs.foldl (step d barred) s

@[simp] theorem run_nil (s : Scan) : run d barred s [] = s := rfl

@[simp] theorem run_cons (s : Scan) (c : Char) (cs : List Char) :
    run d barred s (c :: cs) = run d barred (step d barred s c) cs := rfl

theorem run_append (s : Scan) (cs ds : List Char) :
    run d barred s (cs ++ ds) = run d barred (run d barred s cs) ds := List.foldl_append

theorem step_broken (s : Scan) (c : Char) (h : s.broken = true) : (step d barred s c).broken = true := by
  unfold step outside
  grind

theorem run_broken (s : Scan) (cs : List Char) (h : s.broken = true) :
    (run d barred s cs).broken = true := by
  induction cs generalizing s with
  | nil => exact h
  | cons c cs ih => exact ih _ (step_broken d barred s c h)

variable {d barred}

theorem outside_deeper {barred' : Nat → Char → Bool} {k : Nat}
    (hb : ∀ n c, barred' (n + k) c = true → barred n c = true) {r r' : Reading} {a b : Nat} {p c : Char}
    (h : outside d barred ⟨r, a, false⟩ p c = ⟨r', b, false⟩) :
    outside d barred' ⟨r, a + k, false⟩ p c = ⟨r', b + k, false⟩ := by
  unfold outside at h ⊢
  cases hq : d.closer? c with
  | some close =>
    simp only [hq, Scan.mk.injEq] at h ⊢
    exact ⟨h.1, by omega, trivial⟩
  | none =>
    simp only [hq] at h ⊢
    by_cases hl : c = '('
    · simp only [if_pos hl, Scan.mk.injEq] at h ⊢
      exact ⟨h.1, by omega, trivial⟩
    · by_cases hr : c = ')'
      · simp only [if_neg hl, if_pos hr, Scan.mk.injEq, Bool.false_or, beq_eq_false_iff_ne] at h ⊢
        -- it closed something at depth `a`, so it does `k` deeper
        exact ⟨h.1, by omega, by omega⟩
      · simp only [if_neg hl, if_neg hr, Scan.mk.injEq, Bool.false_or, Bool.or_eq_false_iff] at h ⊢
        obtain ⟨hread, hdepth, hcomment, hbar⟩ := h
        refine ⟨hread, by omega, hcomment, ?_⟩
        cases hk : barred' (a + k) c with
        | false => rfl
        | true => rw [hb a c hk] at hbar; cases hbar

/-- What is read at some depth without breaking is read alike `k` parentheses deeper, also with other
characters barred, as long as none is barred there that was not barred before. -/
theorem step_deeper {barred' : Nat → Char → Bool} {k : Nat}
    (hb : ∀ n c, barred' (n + k) c = true → barred n c = true) {r r' : Reading} {a b : Nat} {c : Char}
    (h : step d barred ⟨r, a, false⟩ c = ⟨r', b, false⟩) :
    step d barred' ⟨r, a + k, false⟩ c = ⟨r', b + k, false⟩ := by
  cases r with
  | outside p => exact outside_deeper hb h
  | quoted q =>
    simp only [step, Scan.mk.injEq] at h ⊢
    exact ⟨h.1, by omega, trivial⟩
  | closing q =>
    by_cases hq : c = q
    · simp only [step, hq, if_true, Scan.mk.injEq] at h ⊢
      exact ⟨h.1, by omega, trivial⟩
    · simp only [step, hq, if_false] at h ⊢
      exact outside_deeper hb h

theorem step_of_run {r r' : Reading} {a b : Nat} {c : Char} {cs : List Char}
    (h : run d barred ⟨r, a, false⟩ (c :: cs) = ⟨r', b, false⟩) :
    ∃ r₁ a₁, step d barred ⟨r, a, false⟩ c = ⟨r₁, a₁, false⟩ ∧
      run d barred ⟨r₁, a₁, false⟩ cs = ⟨r', b, false⟩ := by
  rw [run_cons] at h
  match hs : step d barred ⟨r, a, false⟩ c with
  | ⟨r₁, a₁, true⟩ =>
    have hc := run_broken d barred ⟨r₁, a₁, true⟩ cs rfl
    rw [← hs, h] at hc
    cases hc
  | ⟨r₁, a₁, false⟩ => exact ⟨r₁, a₁, rfl, hs ▸ h⟩

theorem run_deeper {barred' : Nat → Char → Bool} {k : Nat}
    (hb : ∀ n c, barred' (n + k) c = true → barred n c = true) {r r' : Reading} {a b : Nat}
    {cs : List Char} (h : run d barred ⟨r, a, false⟩ cs = ⟨r', b, false⟩) :
    run d barred' ⟨r, a + k, false⟩ cs = ⟨r', b + k, false⟩ := by
  induction cs generalizing r a with
  | nil =>
    obtain ⟨rfl, rfl, _⟩ := Scan.mk.inj h
    rfl
  | cons c cs ih =>
    obtain ⟨r₁, a₁, hs, hr⟩ := step_of_run h
    rw [run_cons, step_deeper hb hs]
    exact ih hr

end Scan

def isQuoteEnd (c : Char) : Bool := c == '\x27' || c == ']' || c == '"'

namespace Reading

/-- Outside of quotes, with nothing before that could be half of a comment's start. -/
def isCalm : Reading → Bool
  | outside previous => previous != '-' && previous != '/'
  | _ => false

/-- Outside of quotes, unless the next character takes the last quote up again. -/
def isSettled : Reading → Bool
  | outside _ => true
  | quoted _ => false
  | closing close => isQuoteEnd close

theorem isSettled_of_isCalm {r : Reading} (h : r.isCalm = true) : r.isSettled = true := by
  cases r with
  | outside previous => rfl
  | quoted close | closing close => cases h

end Reading

open Reading (isCalm isSettled)

/-- The text takes a reader from each reading in `P` at depth `a` to one in `Q` at depth `b`, without
breaking. -/
def Carries (d : Dialect) (barred : Nat → Char → Bool) (P Q : Reading → Bool) (a b : Nat)
    (cs : List Char) : Prop :=
  ∀ r, P r = true → ∃ r', Q r' = true ∧ Scan.run d barred ⟨r, a, false⟩ cs = ⟨r', b, false⟩

namespace Carries

variable {d : Dialect} {barred : Nat → Char → Bool} {P Q R : Reading → Bool} {a b c : Nat}
  {cs ds : List Char}

theorem nil (h : ∀ r, P r = true → Q r = true) : Carries d barred P Q a a [] :=
  fun r hr => ⟨r, h r hr, rfl⟩

theorem append (h : Carries d barred P Q a b cs) (h' : Carries d barred Q R b c ds) :
    Carries d barred P R a c (cs ++ ds) := by
  intro r hr
  obtain ⟨r₁, hr₁, h₁⟩ := h r hr
  obtain ⟨r₂, hr₂, h₂⟩ := h' r₁ hr₁
  exact ⟨r₂, hr₂, by rw [Scan.run_append, h₁, h₂]⟩

theorem deeper {barred' : Nat → Char → Bool} {k : Nat}
    (hb : ∀ n c, barred' (n + k) c = true → barred n c = true) (h : Carries d barred P Q a b cs) :
    Carries d barred' P Q (a + k) (b + k) cs := by
  intro r hr
  obtain ⟨r', hr', h⟩ := h r hr
  exact ⟨r', hr', Scan.run_deeper hb h⟩

theorem ofSettled (h : Carries d barred isSettled Q a b cs) : Carries d barred isCalm Q a b cs :=
  fun r hr => h r (Reading.isSettled_of_isCalm hr)

theorem toSettled (h : Carries d barred P isCalm a b cs) : Carries d barred P isSettled a b cs := by
  intro r hr
  obtain ⟨r', hr', h⟩ := h r hr
  exact ⟨r', Reading.isSettled_of_isCalm hr', h⟩

end Carries

def isLeading (c : Char) : Bool := !isQuoteEnd c && c != '-' && c != '*'

theorem Scan.step_leading {d : Dialect} {barred : Nat → Char → Bool} {r : Reading} {a : Nat} {c : Char}
    (hr : r.isSettled = true) (hc : isLeading c = true) :
    step d barred ⟨r, a, false⟩ c = step d barred ⟨.outside ' ', a, false⟩ c := by
  simp only [isLeading, Bool.and_eq_true, Bool.not_eq_true', bne_iff_ne] at hc
  obtain ⟨⟨hq, hm⟩, hs⟩ := hc
  have ho : ∀ p, outside d barred ⟨r, a, false⟩ p c = outside d barred ⟨.outside ' ', a, false⟩ ' ' c := by
    intro p
    have hp : ∀ p', opensComment p' c = false := by simp [opensComment, hm, hs]
    simp only [outside, hp]
  cases r with
  | outside p => exact ho p
  | quoted q => cases hr
  | closing q =>
    have hne : c ≠ q := by
      rintro rfl
      rw [isSettled, hq] at hr
      cases hr
    simpa only [step, if_neg hne] using ho q

theorem Scan.step_calm {d : Dialect} {barred : Nat → Char → Bool} {r : Reading} {a : Nat} (c : Char)
    (hr : r.isCalm = true) :
    step d barred ⟨r, a, false⟩ c = step d barred ⟨.outside ' ', a, false⟩ c := by
  cases r with
  | outside p =>
    simp only [isCalm, Bool.and_eq_true, bne_iff_ne] at hr
    have hp : opensComment p c = opensComment ' ' c := by simp [opensComment, hr]
    simp only [step, outside, hp]
  | quoted q | closing q => cases hr

def reads (d : Dialect) (barred : Nat → Char → Bool) (Q : Reading → Bool) (a b : Nat) (cs : List Char) :
    Bool :=
  let s := Scan.run d barred ⟨.outside ' ', a, false⟩ cs
  !cs.isEmpty && Q s.reading && s.depth == b && !s.broken

namespace Carries

variable {d : Dialect} {barred : Nat → Char → Bool} {Q : Reading → Bool} {a b : Nat} {cs : List Char}

theorem of_head {P : Reading → Bool} (h : reads d barred Q a b cs = true)
    (hs : ∀ r c, P r = true → cs.head? = some c →
      Scan.step d barred ⟨r, a, false⟩ c = Scan.step d barred ⟨.outside ' ', a, false⟩ c) :
    Carries d barred P Q a b cs := by
  intro r hr
  cases cs with
  | nil => cases h
  | cons c cs =>
    have he : Scan.run d barred ⟨r, a, false⟩ (c :: cs) = Scan.run d barred ⟨.outside ' ', a, false⟩ (c :: cs) := by
      rw [Scan.run_cons, hs r c hr rfl, ← Scan.run_cons]
    simp only [reads, Bool.and_eq_true, beq_iff_eq, Bool.not_eq_true'] at h
    obtain ⟨⟨⟨_, hq⟩, hdepth⟩, hbroken⟩ := h
    rw [he]
    generalize Scan.run d barred ⟨.outside ' ', a, false⟩ (c :: cs) = s at hq hdepth hbroken ⊢
    subst hdepth
    exact ⟨s.reading, hq, by rw [← hbroken]⟩

/-- A fixed text carries where a single reading of it leads. -/
theorem fixed (h : reads d barred Q a b cs = true) : Carries d barred isCalm Q a b cs :=
  of_head h fun _ c hr _ => Scan.step_calm c hr

theorem fixed_leading (h : (cs.head?.any isLeading && reads d barred Q a b cs) = true) :
    Carries d barred isSettled Q a b cs := by
  rw [Bool.and_eq_true] at h
  apply of_head h.2
  intro r c hr hc
  rw [hc, Option.any_some] at h
  exact Scan.step_leading hr h.1

end Carries

def marks : List Char := ['\x27', '"', '[', ']', '(', ')', '-', '*', '/', ';']

def isPlain (c : Char) : Bool := !marks.contains c

theorem isPlain_of_class {p : Char → Bool} (hp : marks.any p = false) {c : Char} (hc : p c = true) :
    isPlain c = true := by
  rw [isPlain, Bool.not_eq_true', List.contains_eq_mem, decide_eq_false_iff_not]
  intro hm
  exact List.any_eq_false.1 hp c hm hc

theorem isCalm_of_isPlain {c : Char} (hc : isPlain c = true) : isCalm (.outside c) = true := by
  simp only [isPlain, marks, List.contains_eq_mem, List.mem_cons, List.not_mem_nil, or_false,
    Bool.not_eq_true', decide_eq_false_iff_not, not_or] at hc
  simp [isCalm, hc]

theorem Scan.step_plain {d : Dialect} {barred : Nat → Char → Bool} {r : Reading} {a : Nat} {c : Char}
    (hr : r.isSettled = true) (hc : isPlain c = true) :
    step d barred ⟨r, a, false⟩ c = ⟨.outside c, a, barred a c⟩ := by
  simp only [isPlain, marks, List.contains_eq_mem, List.mem_cons, List.not_mem_nil, or_false,
    Bool.not_eq_true', decide_eq_false_iff_not, not_or] at hc
  have hq : d.closer? c = none := by cases d <;> simp [Dialect.closer?, hc]
  rw [step_leading hr (by simp [isLeading, isQuoteEnd, hc])]
  simp [step, outside, hq, hc, opensComment]

namespace Carries

variable {d : Dialect} {barred : Nat → Char → Bool} {a : Nat} {cs : List Char}

theorem plain (hn : cs ≠ []) (hp : ∀ c ∈ cs, isPlain c = true ∧ barred a c = false) :
    Carries d barred isSettled isCalm a a cs := by
  induction cs with
  | nil => exact absurd rfl hn
  | cons c cs ih =>
    obtain ⟨hc, hb⟩ := hp c (by simp)
    intro r hr
    rw [Scan.run_cons, Scan.step_plain hr hc, hb]
    by_cases he : cs = []
    · subst he
      exact ⟨.outside c, isCalm_of_isPlain hc, rfl⟩
    · exact ih he (fun c' hc' => hp c' (by simp [hc'])) _ rfl

theorem minus (hb : barred a '-' = false) (hn : cs ≠ [])
    (hp : ∀ c ∈ cs, isPlain c = true ∧ barred a c = false) :
    Carries d barred isCalm isCalm a a ('-' :: cs) := by
  have hm : Carries d barred isCalm isSettled a a ['-'] := by
    apply fixed
    cases d <;> simp [reads, Scan.step, Scan.outside, Dialect.closer?, opensComment, isSettled, hb]
  exact hm.append (plain hn hp)

theorem run_doubled (close : Char) (cs : List Char) :
    Scan.run d barred ⟨.quoted close, a, false⟩ (Text.doubled close cs) = ⟨.quoted close, a, false⟩ := by
  induction cs with
  | nil => rfl
  | cons c cs ih =>
    by_cases hc : c = close <;> simpa [Text.doubled, Scan.step, hc] using ih

theorem enclosed {start close : Char} (s : String) (hs : d.closer? start = some close)
    (hc : isQuoteEnd close = true) :
    Carries d barred isCalm isSettled a a (Text.enclose start close s).toList := by
  intro r hr
  cases r with
  | outside p =>
    refine ⟨.closing close, hc, ?_⟩
    rw [Text.enclose, String.toList_ofList, List.cons_append, Scan.run_cons, Scan.run_append]
    simp [Scan.step, Scan.outside, hs, run_doubled]
  | quoted q | closing q => cases hr

theorem group {barred' : Nat → Char → Bool} (hb : ∀ n c, barred' (n + 1) c = true → barred n c = true)
    (h : Carries d barred isCalm isSettled 0 0 cs) :
    Carries d barred' isSettled isCalm 0 0 ('(' :: (cs ++ [')'])) := by
  have ho : Carries d barred' isSettled isCalm 0 1 ['('] := fixed_leading (by cases d <;> rfl)
  have hc : Carries d barred' isSettled isCalm 1 0 [')'] := fixed_leading (by cases d <;> rfl)
  exact ho.append ((h.deeper hb).append hc)

theorem intercalate {glue : List Char} {parts : List (List Char)}
    (hg : Carries d barred isSettled isCalm a a glue)
    (hp : ∀ p ∈ parts, Carries d barred isCalm isSettled a a p) :
    Carries d barred isCalm isSettled a a (glue.intercalate parts) := by
  match parts with
  | [] => exact nil fun r hr => Reading.isSettled_of_isCalm hr
  | [p] =>
    rw [List.intercalate_singleton]
    exact hp p (by simp)
  | p :: q :: parts =>
    rw [List.intercalate_cons_cons, List.append_assoc]
    exact (hp p (by simp)).append (hg.append (intercalate hg fun p' hp' => hp p' (by simp [hp'])))

end Carries

end FetchQuery.Sql
