import FetchQuery.Command.Run

namespace FetchQuery.Text

theorem join_empty (texts : List String) : join "" texts = String.join texts := by
  match texts with
  | [] => rfl
  | [t] => simp [join]
  | t :: u :: texts => rw [join, join_empty (u :: texts), String.append_empty, ← String.join_cons]

end FetchQuery.Text

namespace FetchQuery.Command

def opened (complaint : String → String) (name : String) : Content → Except Abort Document
  | .error failure => .error (.unreadable (if name = "-" then "stdin" else name) failure)
  | .ok text =>
    match Document.parse text with
    | some d => .ok d
    | none => .error (.malformed name (complaint text))

/-- What the file at a position is found to be. A hyphen stands for the standard input, of which the first
one leaves nothing to later ones. -/
def openedAt (s : Surroundings) (files : List String) (i : Nat) : Option (Except Abort Document) :=
  files[i]?.map fun name =>
    opened s.documentComplaint name (if name = "-" then if "-" ∈ files.take i then .ok "" else s.stdin else s.file name)

/-- The settings that hold for a run: what the arguments say replaces what the configuration says, apart
from the two switches that either may set. -/
def effective (g : Given) (s : Settings) : Settings where
  dialect := match g.dialect with
    | some d => d
    | none => s.dialect
  statement := {
    aliasRoot := s.statement.aliasRoot || g.aliasRoot
    normalizeJoins := s.statement.normalizeJoins || g.normalizeJoins }
  layout := {
    pretty := if g.compact then false else s.layout.pretty
    tabLength := match g.tabLength with
      | some n => n
      | none => s.layout.tabLength
    spaceChar := s.layout.spaceChar
    comma := s.layout.comma }

structure Attempt where
  file : String
  entity : String
  result : Except Fault String

namespace Attempt

/-- Beside the entity, only two fields of its document count. -/
def of (settings : Settings) (file : String) (distinct : Option Bool) (top : Option UInt32)
    (e : Document.Entity) : Attempt where
  file := file
  entity := e.name
  result := Document.sql { distinct, top, entities := [] } settings e

def output (a : Attempt) : String :=
  match a.result with
  | .ok sql => sql ++ "\n"
  | .error _ => ""

def report (colour : Bool) (a : Attempt) : String :=
  match a.result with
  | .ok _ => ""
  | .error fault =>
    if colour then
      "\x1b[1;31mFailed:\x1b[0m " ++ paint true "33" a.file ++ " (" ++ a.entity ++ "): " ++ fault.message ++ "\n"
    else "Failed: " ++ a.file ++ " (" ++ a.entity ++ "): " ++ fault.message ++ "\n"

def event (a : Attempt) : Event :=
  match a.result with
  | .ok sql => .statement sql
  | .error fault => .failed a.file a.entity fault

end Attempt

def attempts (settings : Settings) (files : List String) (documents : List Document) : List Attempt :=
  (files.zip documents).flatMap fun (file, d) => d.entities.map (Attempt.of settings file d.distinct d.top)

def eventsOf (all : List Attempt) (stop : Option Abort) : List Event :=
  all.map Attempt.event ++ stop.toList.map Event.abort

def abortReport (colour : Bool) (cause : Abort) : String :=
  (if colour then "\x1b[1;31mError:\x1b[0m " else "Error: ") ++ cause.message ++ "\n"

theorem apply_eq_effective (g : Given) (s : Settings) : g.apply s = effective g s := by
  cases hd : g.dialect <;> cases ht : g.tabLength <;> cases hc : g.compact <;>
    simp [Given.apply, effective, hd, ht, hc]

theorem documentEvents_eq (settings : Settings) (file : String) (d : Document) :
    documentEvents settings file d =
      (d.entities.map (Attempt.of settings file d.distinct d.top)).map Attempt.event := by
  rw [documentEvents, List.map_map]
  rfl

theorem openedAt_succ (s : Surroundings) (name : String) (files : List String) (i : Nat) :
    openedAt s (name :: files) (i + 1) =
      openedAt { s with stdin := if name = "-" then .ok "" else s.stdin } files i := by
  by_cases h : name = "-" <;> simp [openedAt, h, eq_comm]

theorem openedAt_zero (s : Surroundings) (name : String) (files : List String) :
    openedAt s (name :: files) 0 = some (opened s.documentComplaint name (if name = "-" then s.stdin else s.file name)) := by
  simp [openedAt]

theorem inputsOf_cons (s : Surroundings) (name : String) (files : List String) :
    inputsOf s.file s.stdin (name :: files) =
      ⟨name, if name = "-" then s.stdin else s.file name⟩ ::
        inputsOf s.file (if name = "-" then .ok "" else s.stdin) files := by
  rw [inputsOf]
  split <;> rfl

theorem inputEvents_cons (complaint : String → String) (settings : Settings) (input : Input) (inputs : List Input) :
    inputEvents complaint settings (input :: inputs) =
      match opened complaint input.name input.content with
      | .error cause => [.abort cause]
      | .ok d => documentEvents settings input.name d ++ inputEvents complaint settings inputs := by
  rw [inputEvents]
  cases input.content with
  | error failure => rfl
  | ok text =>
    simp only [opened]
    cases Document.parse text with
    | none => rfl
    | some d => rfl

theorem inputEvents_eq (settings : Settings) (s : Surroundings) (files : List String) :
    ∃ (documents : List Document) (stop : Option Abort),
      (∀ i d, documents[i]? = some d → openedAt s files i = some (.ok d)) ∧
      openedAt s files documents.length = stop.map .error ∧
      inputEvents s.documentComplaint settings (inputsOf s.file s.stdin files) =
        eventsOf (attempts settings files documents) stop := by
  -- each hyphen changes what the later ones find, so the surroundings vary along the list
  induction files generalizing s with
  | nil => exact ⟨[], none, by simp, rfl, rfl⟩
  | cons name files ih =>
    rw [inputsOf_cons, inputEvents_cons]
    have hzero := openedAt_zero s name files
    cases ho : opened s.documentComplaint name (if name = "-" then s.stdin else s.file name) with
    | error cause =>
      rw [ho] at hzero
      exact ⟨[], some cause, by simp, hzero, rfl⟩
    | ok d =>
      rw [ho] at hzero
      obtain ⟨documents, stop, hread, hstop, hevents⟩ :=
        ih { s with stdin := if name = "-" then .ok "" else s.stdin }
      refine ⟨d :: documents, stop, ?_, ?_, ?_⟩
      · rintro (_ | i) e he
        · rw [hzero, ← Option.some.inj he]
        · rw [openedAt_succ]
          exact hread i e he
      · rw [List.length_cons, openedAt_succ, hstop]
      · rw [hevents]
        simp only [eventsOf, documentEvents_eq, attempts, List.zip_cons_cons, List.flatMap_cons,
          List.map_append, List.append_assoc]

theorem stdout_event (a : Attempt) : a.event.stdout = a.output := by
  unfold Attempt.event Attempt.output
  cases a.result <;> rfl

theorem stderr_event (colour : Bool) (a : Attempt) : a.event.stderr colour = a.report colour := by
  have hlabel : paint true "1;31" "Failed:" = "\x1b[1;31mFailed:\x1b[0m" := by decide
  unfold Attempt.event Attempt.report
  cases a.result with
  | ok sql => rfl
  | error fault =>
    cases colour with
    | false => rfl
    | true => simp [Event.stderr, hlabel, String.append_assoc]

theorem stderr_abort (colour : Bool) (cause : Abort) :
    (Event.abort cause).stderr colour = abortReport colour cause := by
  have hlabel : paint true "1;31" "Error:" = "\x1b[1;31mError:\x1b[0m" := by decide
  cases colour with
  | false => rfl
  | true => simp [Event.stderr, abortReport, hlabel, String.append_assoc]

theorem isStatement_event (a : Attempt) : a.event.isStatement = true ↔ ∃ sql, a.result = .ok sql := by
  unfold Attempt.event
  cases a.result with
  | ok sql => exact iff_of_true rfl ⟨sql, rfl⟩
  | error fault => exact iff_of_false Bool.false_ne_true fun ⟨_, h⟩ => nomatch h

section

variable (colour : Bool) (all : List Attempt) (stop : Option Abort)

theorem stdout_ofEvents :
    (Outcome.ofEvents colour (eventsOf all stop)).stdout = String.join (all.map Attempt.output) := by
  have hall : (all.map Attempt.event).map Event.stdout = all.map Attempt.output := by
    rw [List.map_map]
    exact List.map_congr_left fun a _ => stdout_event a
  simp only [Outcome.ofEvents, eventsOf, Text.join_empty, List.map_append, String.join_append, hall]
  cases stop with
  | none => exact String.append_empty
  | some cause => exact String.append_empty

theorem stderr_ofEvents :
    (Outcome.ofEvents colour (eventsOf all stop)).stderr =
      String.join (all.map (Attempt.report colour)) ++ (stop.map (abortReport colour)).getD "" := by
  have hall : (all.map Attempt.event).map (Event.stderr colour) = all.map (Attempt.report colour) := by
    rw [List.map_map]
    exact List.map_congr_left fun a _ => stderr_event colour a
  simp only [Outcome.ofEvents, eventsOf, Text.join_empty, List.map_append, String.join_append, hall]
  cases stop with
  | none => rfl
  | some cause => simp [stderr_abort]

theorem exitCode_ofEvents :
    (Outcome.ofEvents colour (eventsOf all stop)).exitCode = 0 ↔
      stop = none ∧ ∀ a ∈ all, ∃ sql, a.result = .ok sql := by
  have hcode : (Outcome.ofEvents colour (eventsOf all stop)).exitCode = 0 ↔
      (eventsOf all stop).all Event.isStatement = true := by
    simp only [Outcome.ofEvents]
    split <;> simp_all
  have hall : (all.map Attempt.event).all Event.isStatement = true ↔
      ∀ a ∈ all, ∃ sql, a.result = .ok sql := by
    simp only [List.all_map, List.all_eq_true, Function.comp_apply, isStatement_event]
  rw [hcode, eventsOf, List.all_append, Bool.and_eq_true, hall]
  cases stop with
  | none => simp
  | some cause => simp [Event.isStatement]

end

/-- A run converts the files up to the first that ends it. The standard output has the statements that
succeeded, the standard error a report for each that failed and one for the end, and the run succeeds
if there is nothing to report. -/
theorem run_convert (s : Surroundings) (args : List String) (config : Option String) (given : Given)
    (settings : Settings)
    (hr : Request.ofArguments (s.env "FETCHXML_CONFIG") args = .ok (.convert config given))
    (hs : loadSettings s config = .ok settings) :
    ∃ (documents : List Document) (stop : Option Abort),
      (∀ i d, documents[i]? = some d → openedAt s given.files i = some (.ok d)) ∧
      openedAt s given.files documents.length = stop.map .error ∧
      let all := attempts (effective given settings) given.files documents
      (run s args).stdout = String.join (all.map Attempt.output) ∧
      (run s args).stderr = String.join (all.map (Attempt.report (wantsColour s.env))) ++
        (stop.map (abortReport (wantsColour s.env))).getD "" ∧
      ((run s args).exitCode = 0 ↔ stop = none ∧ ∀ a ∈ all, ∃ sql, a.result = .ok sql) := by
  obtain ⟨documents, stop, hread, hstop, hevents⟩ :=
    inputEvents_eq (effective given settings) s given.files
  have hrun : run s args = Outcome.ofEvents (wantsColour s.env)
      (eventsOf (attempts (effective given settings) given.files documents) stop) := by
    rw [← hevents, run, hr]
    simp only [convertEvents, hs, apply_eq_effective]
  refine ⟨documents, stop, hread, hstop, ?_⟩
  rw [hrun]
  exact ⟨stdout_ofEvents .., stderr_ofEvents .., exitCode_ofEvents ..⟩

def accountsAndTasks : Surroundings where
  file path :=
    if path = "a.json" then
      .ok ("\x7b\"entity\":[\x7b\"name\":\"account\"\x7d,\x7b\"name\":\"task\"," ++
        "\"link-entity\":[\x7b\"name\":\"contact\"\x7d]\x7d]\x7d")
    else .error .missing
  stdin := .ok ""
  env _ := none
  documentComplaint _ := "EOF while parsing a value at line 1 column 0"
  settingsComplaint _ := ""

theorem run_convert_accountsAndTasks :
    let args := ["convert", "--compact", "a.json", "-", "a.json"]
    let given : Given := { compact := true, files := ["a.json", "-", "a.json"] }
    Request.ofArguments (accountsAndTasks.env "FETCHXML_CONFIG") args = .ok (.convert none given) ∧
    loadSettings accountsAndTasks none = .ok {} ∧
    (run accountsAndTasks args).stdout = "select * from [account]\n" ∧
    (run accountsAndTasks args).stderr =
      "Failed: a.json (task): Link to 'contact' declares 0 'from' column(s) but 0 'to' column(s)\n" ++
      "Error: reading -: Invalid query document: EOF while parsing a value at line 1 column 0\n" ∧
    ∃ (documents : List Document) (stop : Option Abort),
      (∀ i d, documents[i]? = some d → openedAt accountsAndTasks given.files i = some (.ok d)) ∧
      openedAt accountsAndTasks given.files documents.length = stop.map .error ∧
      let all := attempts (effective given {}) given.files documents
      (run accountsAndTasks args).stdout = String.join (all.map Attempt.output) ∧
      (run accountsAndTasks args).stderr =
        String.join (all.map (Attempt.report false)) ++ (stop.map (abortReport false)).getD "" ∧
      ((run accountsAndTasks args).exitCode = 0 ↔ stop = none ∧ ∀ a ∈ all, ∃ sql, a.result = .ok sql) :=
  ⟨rfl, rfl, by decide +kernel, by decide +kernel,
    run_convert accountsAndTasks ["convert", "--compact", "a.json", "-", "a.json"] none
      { compact := true, files := ["a.json", "-", "a.json"] } {} rfl rfl⟩

end FetchQuery.Command
