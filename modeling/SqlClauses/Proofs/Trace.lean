import Mathlib.Data.Finset.Card
import SqlClauses.Log
import SqlClauses.Proofs.Recording
import SqlClauses.Proofs.Scanning

/-!
# The trace of a query

A run keeps account of its steps while it builds an expression. Its events name the query as it was
given and then the clauses of its normal form, each at its place there, and they end with a number
that can be had in two ways: as the size of the expression and from the events before it.

* `Run.events_step`, `Run.events_foldl_step`: the events of one step and of all steps.
* `Run.size_of_keywords`: the size of the expression, from the keywords of the events.
* `trace_of_query`: the events of a query and their records.
-/

namespace SqlClauses

open Text

/-! ## Clauses and their events -/

/-- The event of recording a clause. -/
def Clause.event (clause : Clause) : Event :=
  .recording clause.keyword clause.keyword.reading clause.span

namespace Event

/-- The keyword of an event, if it is that of recording a clause. -/
def keyword? : Event → Option Keyword
  | recording keyword _ _ => some keyword
  | _ => none

/-- The bytes that this keyword covers. -/
def span? : Event → Option Span
  | recording _ _ span => some span
  | _ => none

end Event

/-! ## Runs -/

namespace Run

/-- A step adds one event, that of its clause. -/
theorem events_step (run : Run) (clause : Clause) :
    (run.step clause).events.toList = run.events.toList ++ [clause.event] := by
  show (run.events.push clause.event).toList = _
  exact Array.toList_push

theorem events_foldl_step (clauses : List Clause) (run : Run) :
    (clauses.foldl step run).events.toList = run.events.toList ++ clauses.map Clause.event := by
  induction clauses generalizing run with
  | nil => simp
  | cons clause rest ih =>
    rw [List.foldl_cons, ih, events_step, List.append_assoc]
    rfl

theorem events_ofQuery (sql : Text) :
    (ofQuery sql).events.toList =
      .parsing sql :: ((Clause.listOfQuery sql).map Clause.event ++
        [.parsed (ofQuery sql).expression.size]) := by
  have hfold := events_foldl_step (Clause.listOfQuery sql) ⟨.empty, #[.parsing sql]⟩
  have hlast : (ofQuery sql).events.toList =
      ((Clause.listOfQuery sql).foldl step ⟨.empty, #[.parsing sql]⟩).events.toList ++
        [.parsed (ofQuery sql).expression.size] := Array.toList_push
  rw [hlast, hfold]
  rfl

/-- Only the events of clauses count among all events of a query. -/
theorem filterMap_events_ofQuery {α : Type} (read : Event → Option α) (sql : Text)
    (hparsing : read (.parsing sql) = none) (hparsed : ∀ n, read (.parsed n) = none) :
    (ofQuery sql).events.toList.filterMap read =
      (Clause.listOfQuery sql).filterMap fun clause => read clause.event := by
  rw [events_ofQuery, List.filterMap_cons_none hparsing, List.filterMap_append,
    List.filterMap_map, List.filterMap_cons_none (hparsed _), List.filterMap_nil, List.append_nil]
  rfl

/-- An expression has as many keywords as there are different ones among the clauses that are
recorded in it. -/
theorem size_of_keywords (sql : Text) :
    (ofQuery sql).expression.size =
      ((ofQuery sql).events.toList.filterMap Event.keyword?).toFinset.card := by
  have hkeywords : (ofQuery sql).events.toList.filterMap Event.keyword? =
      (Clause.listOfQuery sql).map (·.keyword) := by
    rw [filterMap_events_ofQuery _ _ rfl fun _ => rfl]
    show (Clause.listOfQuery sql).filterMap (some ∘ fun clause : Clause => clause.keyword) = _
    rw [List.filterMap_eq_map]
  have hsame : (ofQuery sql).expression.keywords.toFinset =
      ((Clause.listOfQuery sql).map (·.keyword)).toFinset := by
    ext keyword
    rw [expression_ofQuery, Expression.parse, Expression.keywords_recordAll, List.map_map,
      List.mem_toFinset, List.mem_toFinset, List.mem_eraseDups]
    rfl
  have hnodup : (ofQuery sql).expression.keywords.Nodup := (ofQuery sql).expression.nodup
  rw [hkeywords, ← hsame, List.toFinset_card_of_nodup hnodup, Expression.keywords,
    List.length_map]
  rfl

end Run

/-- A run returns the expression of the query, and its events tell how that came about. The first
one carries the query as it was given, and then there is one for each clause of its normal form, in
order, with the keyword of the clause, its reading and its span. The spans are those of the keywords
in the normal form and follow each other without overlap. The last event carries the number of
different keywords in the events before it, which is the size of the expression. -/
theorem trace_of_query (sql : Text) :
    let run := Run.ofQuery sql
    let clauses := Clause.listOfQuery sql
    let events := run.events.toList
    let count := (events.filterMap Event.keyword?).toFinset.card
    run.expression = Expression.parse sql ∧
    events = .parsing sql ::
      (clauses.map fun clause => .recording clause.keyword clause.keyword.reading clause.span) ++
        [.parsed count] ∧
    count = run.expression.size ∧
    events.map Record.ofEvent =
      ⟨.debug, "parsing query".toList, [("sql".toList, .quoted sql)]⟩ ::
        (clauses.map fun clause =>
          ⟨.trace, "dispatching clause".toList,
            [("keyword".toList, .quoted clause.keyword.spelling),
              ("handler".toList, .quoted clause.keyword.reading.name),
              ("start".toList, .number clause.span.start),
              ("end".toList, .number clause.span.stop)]⟩) ++
          [⟨.debug, "parsed query".toList, [("clauses".toList, .number count)]⟩] ∧
    (events.filterMap Event.span?).Pairwise (fun first second =>
      first.start < second.start ∧ first.stop ≤ second.start) ∧
    ∀ keyword reading span, .recording keyword reading span ∈ events →
      reading = keyword.reading ∧ span.start < span.stop ∧
        span.slice? (normalize sql) = some keyword.spelling := by
  intro run clauses events count
  have hcount : count = run.expression.size := (Run.size_of_keywords sql).symm
  have hevents : events = .parsing sql :: (clauses.map Clause.event ++ [.parsed count]) := by
    rw [hcount]
    exact Run.events_ofQuery sql
  refine ⟨Run.expression_ofQuery sql, hevents, hcount, ?_, ?_, ?_⟩
  · rw [hevents, List.map_cons, List.map_append, List.map_map]
    rfl
  · have hspans : events.filterMap Event.span? = clauses.map (·.span) := by
      simp only [events]
      rw [Run.filterMap_events_ofQuery _ _ rfl fun _ => rfl]
      show clauses.filterMap (some ∘ fun clause : Clause => clause.span) = _
      rw [List.filterMap_eq_map]
    rw [hspans]
    exact List.pairwise_map.2 (Clause.pairwise_listOfText (normalize sql))
  · intro keyword reading span hmem
    rw [hevents] at hmem
    simp only [List.mem_cons, List.mem_append, List.mem_map, reduceCtorEq, false_or,
      List.not_mem_nil, or_false] at hmem
    obtain ⟨clause, hclause, hevent⟩ := hmem
    obtain ⟨rfl, rfl, rfl⟩ := Event.recording.inj hevent
    exact ⟨rfl, Clause.span_of_mem_listOfText hclause⟩

/-- A keyword that comes back counts once, and the spans are those of the normal form, where two
blanks of the query are gone. -/
theorem trace_of_query_values :
    let sql := " WHERE é  LIMIT 1 WHERE".toList
    let events := (Run.ofQuery sql).events.toList
    events = [.parsing sql, .recording .whereCond .conditions ⟨0, 5⟩,
        .recording .limit .verbatim ⟨9, 14⟩, .recording .whereCond .conditions ⟨17, 22⟩,
        .parsed 2] ∧
      (Expression.parse sql).size = 2 ∧
      .recording .whereCond .conditions ⟨17, 22⟩ ∈ events ∧
      Span.slice? ⟨17, 22⟩ (normalize sql) = some Keyword.whereCond.spelling := by
  intro sql events
  have hclauses : Clause.listOfQuery sql =
      [⟨⟨.whereCond, ['é']⟩, ⟨0, 5⟩⟩, ⟨⟨.limit, ['1']⟩, ⟨9, 14⟩⟩,
        ⟨⟨.whereCond, []⟩, ⟨17, 22⟩⟩] := by
    decide +kernel
  obtain ⟨hparse, hevents, hcount, -, -, hspans⟩ := trace_of_query sql
  have hsize : (Run.ofQuery sql).expression.size = 2 := by
    rw [hparse]
    decide +kernel
  rw [hcount, hsize, hclauses] at hevents
  have hmem : .recording .whereCond .conditions ⟨17, 22⟩ ∈ (Run.ofQuery sql).events.toList := by
    rw [hevents]
    simp [Keyword.reading]
  refine ⟨hevents, ?_, hmem, (hspans _ _ _ hmem).2.2⟩
  rw [← hparse, hsize]

end SqlClauses
