import FetchQuery.Operator.Lexicon
import Mathlib.Data.List.Nodup

namespace FetchQuery

namespace Text

theorem rest_eq_some_iff (start cs rest : List Char) :
    after?.rest start cs = some rest ↔ cs = start ++ rest := by
  induction start generalizing cs with
  | nil => simp [after?.rest]
  | cons p ps ih =>
    cases cs with
    | nil => simp [after?.rest]
    | cons c cs =>
      by_cases h : p = c
      · simp [after?.rest, h, ih]
      · simp [after?.rest, h, Ne.symm h]

theorem rest_append (start rest : List Char) : after?.rest start (start ++ rest) = some rest :=
  (rest_eq_some_iff start _ rest).2 rfl

theorem eq_append_of_after? {start s rest : String} (h : after? start s = some rest) :
    s = start ++ rest := by
  obtain ⟨cs, hc, rfl⟩ := Option.map_eq_some_iff.1 h
  rw [← String.toList_inj, String.toList_append, String.toList_ofList]
  exact (rest_eq_some_iff start.toList s.toList cs).1 hc

theorem after?_eq_some_iff {start s rest : String} : after? start s = some rest ↔ s = start ++ rest := by
  refine ⟨eq_append_of_after?, ?_⟩
  rintro rfl
  rw [after?, String.toList_append, rest_append, Option.map_some, String.ofList_toList]

end Text

theorem DatePart.plural_of_ofPlural? {s : String} {part : DatePart} (h : ofPlural? s = some part) :
    part.plural = s := by
  unfold ofPlural? at h
  split at h <;> cases h <;> rfl

namespace Operator

/-- The operator of the lexicon that has the given id. -/
def named? (id : String) : Option Operator := all.find? (·.id = id)

theorem of_ofPlainId? {id : String} {op : Operator} (h : ofPlainId? id = some op) :
    op ∈ all ∧ op.id = id := by
  unfold ofPlainId? at h
  split at h <;> cases h <;> exact ⟨by decide, rfl⟩

theorem of_calendarKeyword {id start keyword : String} {offset : Int} {op : Operator}
    (hall : ∀ part ∈ DatePart.calendarParts, calendar part offset ∈ all ∧
      (calendar part offset).id = start ++ part.keyword)
    (hid : Text.after? start id = some keyword)
    (h : (DatePart.calendarParts.find? fun part => part.keyword == keyword).map (calendar · offset) =
      some op) : op ∈ all ∧ op.id = id := by
  obtain ⟨part, hp, rfl⟩ := Option.map_eq_some_iff.1 h
  have hk : part.keyword = keyword := by simpa using List.find?_some hp
  rw [Text.eq_append_of_after? hid, ← hk]
  exact hall part (List.mem_of_find?_eq_some hp)

theorem of_ofCalendarId? {id : String} {op : Operator} (h : ofCalendarId? id = some op) :
    op ∈ all ∧ op.id = id := by
  unfold ofCalendarId? at h
  simp only at h
  split at h
  next hid => exact of_calendarKeyword (by decide) hid h
  next hid => exact of_calendarKeyword (by decide) hid h
  next hid => exact of_calendarKeyword (by decide) hid h
  next => cases h

theorem of_countedPlural {id start plural : String} {parts : List DatePart} {make : DatePart → Operator}
    {op : Operator} (hall : ∀ part ∈ parts, make part ∈ all ∧ (make part).id = start ++ part.plural)
    (hid : Text.after? start id = some plural)
    (h : ((DatePart.ofPlural? plural).filter (parts.contains ·)).map make = some op) :
    op ∈ all ∧ op.id = id := by
  obtain ⟨part, hp, rfl⟩ := Option.map_eq_some_iff.1 h
  obtain ⟨hp, hm⟩ := Option.filter_eq_some_iff.1 hp
  rw [Text.eq_append_of_after? hid, ← DatePart.plural_of_ofPlural? hp]
  exact hall part (by simpa using hm)

theorem of_ofPartId? {id : String} {op : Operator} (h : ofPartId? id = some op) :
    op ∈ all ∧ op.id = id := by
  unfold ofPartId? at h
  simp only at h
  split at h
  next hid => exact of_countedPlural (by decide) hid h
  next hid => exact of_countedPlural (by decide) hid h
  next hid => exact of_countedPlural (by decide) hid h
  next => exact of_ofCalendarId? h

theorem of_ofId? {id : String} {op : Operator} (h : ofId? id = some op) : op ∈ all ∧ op.id = id := by
  rcases Option.or_eq_some_iff.1 h with h | ⟨_, h⟩
  · exact of_ofPlainId? h
  · exact of_ofPartId? h

theorem ofId?_id {op : Operator} (h : op ∈ all) : ofId? op.id = some op := by
  revert op
  decide +kernel

theorem ofId?_eq_named? (id : String) : ofId? id = named? id := by
  unfold named?
  cases h : ofId? id with
  | none =>
    rw [eq_comm, List.find?_eq_none]
    intro op hop hid
    rw [← of_decide_eq_true hid, ofId?_id hop] at h
    cases h
  | some op =>
    obtain ⟨hop, hid⟩ := of_ofId? h
    cases hf : all.find? (·.id = id) with
    | none => exact absurd (decide_eq_true hid) (List.find?_eq_none.1 hf op hop)
    | some op' =>
      have hid' : op'.id = id := by simpa using List.find?_some hf
      rw [← hid', ofId?_id (List.mem_of_find?_eq_some hf)] at h
      exact h.symm

theorem id_of_named? {id : String} {op : Operator} (h : named? id = some op) : op.id = id := by
  simpa using List.find?_some h

theorem ofId?_eq_some_iff {s : String} {op : Operator} : ofId? s = some op ↔ op ∈ all ∧ op.id = s := by
  refine ⟨of_ofId?, ?_⟩
  rintro ⟨hop, rfl⟩
  exact ofId?_id hop

theorem ofId_eq_ok_iff {s : String} {op : Operator} : ofId s = .ok op ↔ op ∈ all ∧ op.id = s := by
  rw [← ofId?_eq_some_iff, ofId]
  cases ofId? s <;> simp

theorem ofId_eq_error_iff {s : String} {fault : Fault} :
    ofId s = .error fault ↔ fault = .unknownOperator s ∧ ∀ op ∈ all, op.id ≠ s := by
  cases h : ofId? s with
  | none =>
    have hnone : ∀ op ∈ all, op.id ≠ s := by
      intro op hop hid
      rw [ofId?_eq_some_iff.2 ⟨hop, hid⟩] at h
      cases h
    rw [ofId, h]
    constructor
    · intro he
      exact ⟨(Except.error.inj he).symm, hnone⟩
    · rintro ⟨rfl, _⟩
      rfl
  | some op =>
    obtain ⟨hop, hid⟩ := of_ofId? h
    rw [ofId, h]
    constructor
    · intro he
      cases he
    · rintro ⟨_, hne⟩
      exact absurd hid (hne op hop)

theorem id_injective_on_all {op op' : Operator} (h : op ∈ all) (h' : op' ∈ all) (hid : op.id = op'.id) :
    op = op' := by
  have hread := ofId?_id h
  rw [hid, ofId?_id h'] at hread
  exact (Option.some.inj hread).symm

theorem nodup_ids : (all.map id).Nodup :=
  List.Nodup.map_on (fun _ h _ h' => id_injective_on_all h h') (by decide)

/-- What the ids of the lexicon go on with after `start`. -/
def endings (start : String) : List String := all.filterMap fun op => Text.after? start op.id

theorem exists_ofId_append_iff (start rest : String) :
    (∃ op, ofId (start ++ rest) = .ok op) ↔ rest ∈ endings start := by
  simp only [endings, List.mem_filterMap, ofId_eq_ok_iff, Text.after?_eq_some_iff]

/-- A counting id ends in the plural of one of its parts, and no id counts units of the current part. -/
theorem endings_counted :
    endings "last-x-" = DatePart.windowParts.map DatePart.plural ∧
      endings "next-x-" = DatePart.windowParts.map DatePart.plural ∧
      endings "olderthan-x-" = DatePart.agingParts.map DatePart.plural ∧ endings "this-x-" = [] := by
  decide +kernel

theorem endings_calendar :
    endings "this-" = DatePart.calendarParts.map DatePart.keyword ∧
      ∀ start ∈ ["last-", "next-"], endings start =
        DatePart.calendarParts.map DatePart.keyword ++ "seven-days" ::
          DatePart.windowParts.map fun part => "x-" ++ part.plural := by
  decide +kernel

theorem id_lower {op : Operator} (h : op ∈ all) :
    op.id.toList.all (fun c => c.isLower || c == '-') = true := by
  revert op
  decide +kernel

/-- Reading accepts the ids of the lexicon, which are all different, and reports every other text. After the
start of a counting or a calendar id it accepts the parts that this id has, in the form that it has them. -/
theorem ofId_exact (s : String) :
    (∀ op, ofId s = .ok op ↔ op ∈ all ∧ op.id = s) ∧
      (∀ fault, ofId s = .error fault ↔ fault = .unknownOperator s ∧ ∀ op ∈ all, op.id ≠ s) ∧
      (all.map id).Nodup ∧
      (∀ op, ofId s = .ok op → s.toList.all (fun c => c.isLower || c == '-') = true) ∧
      (∀ start rest, (∃ op, ofId (start ++ rest) = .ok op) ↔ rest ∈ endings start) ∧
      (endings "last-x-" = DatePart.windowParts.map DatePart.plural ∧
        endings "next-x-" = DatePart.windowParts.map DatePart.plural ∧
        endings "olderthan-x-" = DatePart.agingParts.map DatePart.plural ∧ endings "this-x-" = []) ∧
      endings "this-" = DatePart.calendarParts.map DatePart.keyword ∧
      ∀ start ∈ ["last-", "next-"], endings start =
        DatePart.calendarParts.map DatePart.keyword ++ "seven-days" ::
          DatePart.windowParts.map fun part => "x-" ++ part.plural := by
  refine ⟨fun op => ofId_eq_ok_iff, fun fault => ofId_eq_error_iff, nodup_ids, ?_, exists_ofId_append_iff,
    endings_counted, endings_calendar⟩
  intro op h
  obtain ⟨hop, rfl⟩ := ofId_eq_ok_iff.1 h
  exact id_lower hop

example : ofId "last-x-minutes" = .error (.unknownOperator "last-x-minutes") := by decide

end Operator

end FetchQuery
