import SqlClauses.Command.Run
import SqlClauses.Proofs.Command.Completeness
import SqlClauses.Proofs.Encoding
import SqlClauses.Text.Bytes

/-!
# How a query arrives

A query comes in the arguments, in a file or on standard input, and what a call makes of it does not
depend on which. The way is told by the line alone, so standard input is looked at only where the
line names no other source.

* `decode_eq_ok_iff`: bytes are read as the text whose UTF-8 they are.
* `outcome_words`: what comes out of a line.
* `readSource_congr`: standard input matters only if it is the source.
* `answer_by_any_route`: the answer is the same on every way.
-/

namespace SqlClauses.Command

open Text

/-! ## Bytes -/

/-- The bytes of a text, as a file holds them. -/
def utf8 (text : Text) : ByteArray := text.bytes.toByteArray

theorem fromUTF8?_eq_some_iff (bytes : ByteArray) (string : String) :
    String.fromUTF8? bytes = some string ↔ bytes = string.toByteArray := by
  unfold String.fromUTF8?
  constructor
  · intro h
    split at h
    · exact Option.some.inj h ▸ rfl
    · nomatch h
  · rintro rfl
    exact dif_pos string.isValidUTF8

/-- Bytes are read as the text whose UTF-8 they are. -/
theorem decode_eq_ok_iff (bytes : ByteArray) (text : Text) :
    decode bytes = .ok text ↔ bytes = utf8 text := by
  show _ ↔ bytes = (String.ofList text).toByteArray
  rw [← fromUTF8?_eq_some_iff, decode]
  cases String.fromUTF8? bytes with
  | none => simp
  | some string => simp [← String.toList_inj]

theorem decode_utf8 (text : Text) : decode (utf8 text) = .ok text :=
  (decode_eq_ok_iff _ _).2 rfl

theorem decode_of_not_utf8 {bytes : ByteArray} (h : ∀ text, bytes ≠ utf8 text) :
    decode bytes = .error .notUtf8 := by
  cases hdecode : decode bytes with
  | ok text => exact absurd ((decode_eq_ok_iff _ _).1 hdecode) (h text)
  | error fault =>
    unfold decode at hdecode
    split at hdecode
    · nomatch hdecode
    · exact hdecode.symm

/-- What is not the UTF-8 of a text has a fault, be it bytes or none. -/
theorem exists_fault_of_not_utf8 {got : Except ReadFault ByteArray}
    (h : ∀ text, got ≠ .ok (utf8 text)) : ∃ fault, got.bind decode = .error fault := by
  cases got with
  | error fault => exact ⟨fault, rfl⟩
  | ok bytes => exact ⟨.notUtf8, decode_of_not_utf8 fun text heq => h text (congrArg Except.ok heq)⟩

/-! ## What comes out -/

/-- What an action makes of a query, if it works on one: its expression, or the clauses of its
normal form, by their members. -/
def Action.answer? (text : Text) : Action → Option Json
  | parse => some (.obj (Expression.parse text).members)
  | segment =>
    some (.arr ((Clause.listOfText (normalize text)).map fun clause => .obj clause.members))
  | keywords => none

/-- What a call shows: its exit code and what it prints. -/
def Outcome.shown (result : Outcome) : UInt32 × Text := (result.exitCode, result.output)

/-- What a line shows of a query, be it had or not. -/
def Line.shown (line : Line) (setting : Option Text) : Except Failure Text → UInt32 × Text
  | .error _ => (1, [])
  | .ok text => (0, (line.action.answer? text).elim [] (render (line.invocation setting).pretty))

variable {m : Type → Type} [Monad m] [LawfulMonad m] (surroundings : Surroundings m)

/-- Only lines that are valid are carried out. -/
theorem outcome_words (line : Line) (setting : Option Text) :
    outcome surroundings line.words setting =
      if line.Valid setting then
        (line.invocation setting).finish <$> (line.invocation setting).run surroundings
      else pure .badUsage := by
  rw [outcome, Invocation.ofArguments_words]
  by_cases h : line.Valid setting
  · rw [if_pos h, if_pos h, map_eq_pure_bind]
  · rw [if_neg h, if_neg h]

/-- An answer is shown if there is a query, whatever the way that it came. -/
theorem shown_answerQuery (call : Invocation) (source : Source)
    (answer : Text → Json × List Event) :
    (fun report => (call.finish report).shown) <$>
        answerQuery surroundings call.pretty source answer =
      (fun
        | .error _ => (1, [])
        | .ok text => (0, render call.pretty (answer text).1)) <$>
        readSource surroundings source := by
  rw [answerQuery, map_bind, map_eq_pure_bind]
  congr
  funext query
  cases query <;> exact map_pure ..

omit [LawfulMonad m] in
/-- What an action that works on a query does with it. -/
theorem exists_answer_of_takesQuery {line : Line} (htakes : line.action.takesQuery = true)
    (setting : Option Text) :
    ∃ answer : Text → Json × List Event,
      (∀ text, line.action.answer? text = some (answer text).1) ∧
      ∀ surroundings : Surroundings m, (line.invocation setting).run surroundings =
        answerQuery surroundings (line.invocation setting).pretty line.source answer := by
  unfold Invocation.run Line.invocation
  cases haction : line.action with
  | keywords =>
    rw [haction] at htakes
    nomatch htakes
  | parse =>
    refine ⟨parseAnswer, ?_, fun _ => rfl⟩
    intro text
    rw [parseAnswer, Run.expression_ofQuery, Expression.toJson_eq_obj_members]
    rfl
  | segment =>
    refine ⟨segmentAnswer, ?_, fun _ => rfl⟩
    intro text
    rw [segmentAnswer, List.map_congr_left fun clause _ => clause.toJson_eq_obj_members]
    rfl

/-- A line that works on a query shows what there is to be shown of that, wherever it is from. -/
theorem shown_outcome {line : Line} {setting : Option Text} (h : line.Valid setting)
    (htakes : line.action.takesQuery = true) :
    Outcome.shown <$> outcome surroundings line.words setting =
      line.shown setting <$> readSource surroundings line.source := by
  obtain ⟨answer, hanswer, hrun⟩ := exists_answer_of_takesQuery (m := m) htakes setting
  rw [outcome_words, if_pos h, ← comp_map, hrun]
  refine (shown_answerQuery surroundings _ _ answer).trans ?_
  congr
  funext query
  cases query with
  | error failure => rfl
  | ok text =>
    rw [Line.shown, hanswer]
    rfl

/-! ## Sources -/

namespace Line

variable {line : Line}

theorem source_of_sqls {text : Text} {texts : List Text} (h : line.sqls = text :: texts) :
    line.source = .text text := by
  rw [source, h]

theorem source_of_files {path : Text} {paths : List Text} (hsqls : line.sqls = [])
    (hfiles : line.files = path :: paths) : line.source = .file path := by
  rw [source, hsqls, hfiles]

theorem source_eq_input_iff : line.source = .input ↔ line.sqls = [] ∧ line.files = [] := by
  unfold source
  cases line.sqls <;> cases line.files <;> simp

/-- A line that makes sense gives no text beside a file. -/
theorem Valid.sqls_eq_nil {setting : Option Text} (h : line.Valid setting)
    (hfiles : line.files ≠ []) : line.sqls = [] := by
  have hone := h.one_source
  have hpos := List.length_pos_iff.2 hfiles
  exact List.length_eq_zero_iff.1 (by omega)

end Line

theorem readSource_file {path text : Text}
    (h : surroundings.readFile path = pure (.ok (utf8 text))) :
    readSource surroundings (.file path) = pure (.ok text) := by
  rw [readSource, h, pure_bind]
  show pure ((decode (utf8 text)).mapError _) = _
  rw [decode_utf8]
  rfl

theorem readSource_input {text : Text}
    (h : surroundings.readInput = pure (some (.ok (utf8 text)))) :
    readSource surroundings .input = pure (.ok text) := by
  rw [readSource, h, pure_bind]
  show pure ((decode (utf8 text)).mapError _) = _
  rw [decode_utf8]
  rfl

/-- A file that cannot be read or holds no UTF-8 is a failure. -/
theorem exists_failure_of_file {path : Text} {got : Except ReadFault ByteArray}
    (h : surroundings.readFile path = pure got) (hgot : ∀ text, got ≠ .ok (utf8 text)) :
    ∃ failure, readSource surroundings (.file path) = pure (.error failure) := by
  obtain ⟨fault, hfault⟩ := exists_fault_of_not_utf8 hgot
  refine ⟨.file path fault, ?_⟩
  rw [readSource, h, pure_bind, hfault]
  rfl

/-- So is standard input, also if it is a terminal. -/
theorem exists_failure_of_input {got : Option (Except ReadFault ByteArray)}
    (h : surroundings.readInput = pure got) (hgot : ∀ text, got ≠ some (.ok (utf8 text))) :
    ∃ failure, readSource surroundings .input = pure (.error failure) := by
  cases got with
  | none =>
    refine ⟨.noQuery, ?_⟩
    rw [readSource, h, pure_bind]
  | some bytes =>
    have hbytes : ∀ text, bytes ≠ .ok (utf8 text) := by
      intro text heq
      exact hgot text (congrArg some heq)
    obtain ⟨fault, hfault⟩ := exists_fault_of_not_utf8 hbytes
    refine ⟨.input fault, ?_⟩
    rw [readSource, h, pure_bind]
    show pure ((bytes.bind decode).mapError _) = _
    rw [hfault]
    rfl

omit [LawfulMonad m] in
/-- Where standard input is not the source, it does not matter. -/
theorem readSource_congr {other : Surroundings m}
    (h : ∀ path, other.readFile path = surroundings.readFile path) {source : Source}
    (hsource : source ≠ .input) :
    readSource other source = readSource surroundings source := by
  cases source with
  | text sql => rfl
  | file path => rw [readSource, readSource, h]
  | input => exact absurd rfl hsource

/-! ## Answers -/

theorem Action.takesQuery_of_answer? {action : Action} {text : Text} {value : Json}
    (h : action.answer? text = some value) : action.takesQuery = true := by
  cases action with
  | keywords => nomatch h
  | _ => rfl

section Shown

variable {line : Line} {setting : Option Text}

theorem shown_of_query (h : line.Valid setting) {text : Text} {value : Json}
    (hvalue : line.action.answer? text = some value)
    (hquery : readSource surroundings line.source = pure (.ok text)) :
    Outcome.shown <$> outcome surroundings line.words setting =
      pure (0, render (line.invocation setting).pretty value) := by
  rw [shown_outcome surroundings h (Action.takesQuery_of_answer? hvalue), hquery, map_pure,
    Line.shown, hvalue]
  rfl

theorem shown_of_failure (h : line.Valid setting) (htakes : line.action.takesQuery = true)
    {failure : Failure} (hquery : readSource surroundings line.source = pure (.error failure)) :
    Outcome.shown <$> outcome surroundings line.words setting = pure (1, []) := by
  rw [shown_outcome surroundings h htakes, hquery, map_pure]
  rfl

/-- Standard input matters only to a line that works on a query and names no source. -/
theorem exists_line_of_outcome_ne {other : Surroundings m}
    (hfiles : ∀ path, other.readFile path = surroundings.readFile path) {arguments : List Text}
    (hne : outcome other arguments setting ≠ outcome surroundings arguments setting) :
    ∃ line : Line, arguments = line.words ∧ line.Valid setting ∧
      line.action.takesQuery = true ∧ line.sqls = [] ∧ line.files = [] := by
  cases hcall : Invocation.ofArguments arguments setting with
  | error refusal =>
    refine absurd ?_ hne
    rw [outcome, outcome, hcall]
    cases refusal <;> rfl
  | ok call =>
    obtain ⟨line, rfl⟩ := exists_line_of_ofArguments hcall
    have hvalid : line.Valid setting := by
      by_contra h
      rw [Invocation.ofArguments_words, if_neg h] at hcall
      nomatch hcall
    have hrun :
        (line.invocation setting).run other ≠ (line.invocation setting).run surroundings := by
      intro heq
      rw [outcome_words, outcome_words, heq] at hne
      exact hne rfl
    have htakes : line.action.takesQuery = true := by
      cases haction : line.action with
      | keywords =>
        refine absurd ?_ hrun
        unfold Invocation.run Line.invocation
        rw [haction]
        rfl
      | _ => rfl
    obtain ⟨answer, -, hanswer⟩ := exists_answer_of_takesQuery (m := m) htakes setting
    have hinput : line.source = .input := by
      by_contra h
      rw [hanswer, hanswer, answerQuery, answerQuery,
        readSource_congr surroundings hfiles h] at hrun
      exact hrun rfl
    exact ⟨line, rfl, hvalid, htakes, Line.source_eq_input_iff.1 hinput⟩

end Shown

/-- What an action makes of a query is shown in the same way whether the query is given as a text,
in a file or on standard input, in any line that makes sense: as JSON with a line end behind it,
spread over lines if that is asked for on either side of the action or by the environment. Standard
input matters only where no other source is named. A line shows nothing but its failure if its
source cannot be read, is no UTF-8, or is a terminal. A text and a file together make no sense. -/
theorem answer_by_any_route (setting : Option Text) :
    (∀ line : Line, line.Valid setting → ∀ text value, line.action.answer? text = some value →
      let spread := .pretty ∈ line.before ++ line.behind ∨ setting = some "true".toList
      let printed := (if spread then value.pretty else value.compact) ++ ['\n']
      let shown := Outcome.shown <$> outcome surroundings line.words setting
      (line.sqls = [text] → shown = pure (0, printed)) ∧
      (∀ path, line.files = [path] → surroundings.readFile path = pure (.ok (utf8 text)) →
        shown = pure (0, printed)) ∧
      (line.sqls = [] → line.files = [] →
        surroundings.readInput = pure (some (.ok (utf8 text))) → shown = pure (0, printed))) ∧
    (∀ other : Surroundings m, (∀ path, other.readFile path = surroundings.readFile path) →
      ∀ arguments, outcome other arguments setting ≠ outcome surroundings arguments setting →
        ∃ line : Line, arguments = line.words ∧ line.Valid setting ∧
          line.action.takesQuery = true ∧ line.sqls = [] ∧ line.files = []) ∧
    (∀ line : Line, line.Valid setting → line.action.takesQuery = true →
      let shown := Outcome.shown <$> outcome surroundings line.words setting
      (∀ path got, line.files = [path] → surroundings.readFile path = pure got →
        (∀ text, got ≠ .ok (utf8 text)) → shown = pure (1, [])) ∧
      (∀ got, line.sqls = [] → line.files = [] → surroundings.readInput = pure got →
        (∀ text, got ≠ some (.ok (utf8 text))) → shown = pure (1, []))) ∧
    ∀ line : Line, line.sqls ≠ [] → line.files ≠ [] →
      outcome surroundings line.words setting = pure .badUsage := by
  refine ⟨?_, ?_, ?_, ?_⟩
  · intro line hvalid text value hvalue spread printed shown
    have hshown (hquery : readSource surroundings line.source = pure (.ok text)) :
        shown = pure (0, printed) := by
      have hprinted : render (line.invocation setting).pretty value = printed := by
        simp only [render, Line.invocation, decide_eq_true_eq, printed, spread]
      rw [← hprinted]
      exact shown_of_query surroundings hvalid hvalue hquery
    refine ⟨?_, ?_, ?_⟩
    · intro hsqls
      apply hshown
      rw [Line.source_of_sqls hsqls]
      rfl
    · intro path hpath hread
      apply hshown
      have hsqls : line.sqls = [] := hvalid.sqls_eq_nil (by simp [hpath])
      rw [Line.source_of_files hsqls hpath]
      exact readSource_file surroundings hread
    · intro hsqls hfiles hread
      apply hshown
      rw [Line.source_eq_input_iff.2 ⟨hsqls, hfiles⟩]
      exact readSource_input surroundings hread
  · intro other hfiles arguments
    exact exists_line_of_outcome_ne surroundings hfiles
  · intro line hvalid htakes shown
    refine ⟨?_, ?_⟩
    · intro path got hpath hread hgot
      obtain ⟨failure, hfailure⟩ := exists_failure_of_file surroundings hread hgot
      have hsqls : line.sqls = [] := hvalid.sqls_eq_nil (by simp [hpath])
      rw [← Line.source_of_files hsqls hpath] at hfailure
      exact shown_of_failure surroundings hvalid htakes hfailure
    · intro got hsqls hfiles hread hgot
      obtain ⟨failure, hfailure⟩ := exists_failure_of_input surroundings hread hgot
      rw [← Line.source_eq_input_iff.2 ⟨hsqls, hfiles⟩] at hfailure
      exact shown_of_failure surroundings hvalid htakes hfailure
  · intro line hsqls hfiles
    have hinvalid : ¬ line.Valid setting := by
      intro h
      exact hsqls (h.sqls_eq_nil hfiles)
    rw [outcome_words, if_neg hinvalid]

/-- A query that looks like a flag, behind two hyphens, in a file and on standard input, with flags
on either side of the action, as an expression and as clauses. Then one that is spread over lines,
one with a missing file, one that a terminal makes a difference to, and one with both a text and a
file. -/
theorem answer_by_any_route_values :
    let query := "-v SELECT a.é, b WHERE x OR y"
    let sql := query.toList
    let surroundings : Surroundings Id :=
      ⟨fun path => if path = "q.sql".toList then .ok (utf8 sql) else .error .notFound,
        some (.ok (utf8 sql))⟩
    let terminal : Surroundings Id := { surroundings with readInput := none }
    let shown (surroundings : Surroundings Id) (arguments : List String) (setting : Option Text) :=
      (outcome surroundings (arguments.map String.toList) setting).run.shown
    let expression := "\x7b\"select\":[\x7b\"alias\":\"a\",\"field\":\"é\"\x7d,\"b\"],".toList ++
      "\"where\":[\"x\",\"y\"]\x7d\n".toList
    let clauses :=
      "[\x7b\"keyword\":\"SELECT\",\"start\":3,\"end\":9,\"content\":\"a.é, b\"\x7d,".toList ++
        "\x7b\"keyword\":\"WHERE\",\"start\":18,\"end\":23,\"content\":\"x OR y\"\x7d]\n".toList
    let spread := "\x7b\n  \"limit\": \"1\"\n\x7d\n".toList
    shown surroundings ["parse", "--", query] none = (0, expression) ∧
      shown surroundings ["-v", "parse", "--file=q.sql"] none = (0, expression) ∧
      shown surroundings ["parse", "--verbose"] none = (0, expression) ∧
      shown surroundings ["segment", "--", query] none = (0, clauses) ∧
      shown surroundings ["segment", "-vfq.sql"] none = (0, clauses) ∧
      shown surroundings ["segment"] none = (0, clauses) ∧
      shown surroundings ["parse", "-vp", "LIMIT 1"] (some "false".toList) = (0, spread) ∧
      shown surroundings ["segment", "-f", "r.sql"] none = (1, []) ∧
      shown terminal ["segment"] none = (1, []) ∧
      (∃ line : Line, ["segment".toList] = line.words ∧ line.Valid none ∧
        line.action.takesQuery = true ∧ line.sqls = [] ∧ line.files = []) ∧
      outcome surroundings (["parse", "LIMIT 1", "-fq.sql"].map String.toList) none =
        pure .badUsage := by
  intro query sql surroundings terminal shown expression clauses spread
  have hexpression : (Json.obj (Expression.parse sql).members).compact ++ ['\n'] = expression := by
    decide +kernel
  have hclauses : (Json.arr ((Clause.listOfText (normalize sql)).map fun clause =>
      .obj clause.members)).compact ++ ['\n'] = clauses := by
    decide +kernel
  have hspread :
      (Json.obj (Expression.parse "LIMIT 1".toList).members).pretty ++ ['\n'] = spread := by
    decide +kernel
  obtain ⟨hanswer, hinput, hfault, hboth⟩ := answer_by_any_route surroundings none
  have hpiped : shown surroundings ["segment"] none = (0, clauses) :=
    hclauses ▸ (hanswer ⟨[], .segment, [], none⟩ (by decide) sql _ rfl).2.2 rfl rfl rfl
  have hterminal : shown terminal ["segment"] none = (1, []) :=
    ((answer_by_any_route terminal none).2.2.1 ⟨[], .segment, [], none⟩ (by decide) rfl).2 none
      rfl rfl rfl (fun _ => by simp)
  refine ⟨?_, ?_, ?_, ?_, ?_, hpiped, ?_, ?_, hterminal, ?_, ?_⟩
  · exact hexpression ▸ (hanswer ⟨[], .parse, [], some [sql]⟩ (by decide) sql _ rfl).1 rfl
  · exact hexpression ▸ (hanswer
      ⟨[.letters .verbose []], .parse, [.fileJoined "q.sql".toList], none⟩
      (by decide) sql _ rfl).2.1 _ rfl rfl
  · exact hexpression ▸ (hanswer ⟨[], .parse, [.switch (.named .verbose)], none⟩
      (by decide) sql _ rfl).2.2 rfl rfl rfl
  · exact hclauses ▸ (hanswer ⟨[], .segment, [], some [sql]⟩ (by decide) sql _ rfl).1 rfl
  · exact hclauses ▸ (hanswer
      ⟨[], .segment, [.letterJoined [.verbose] "q.sql".toList (by decide)], none⟩
      (by decide) sql _ rfl).2.1 _ rfl rfl
  · exact hspread ▸ ((answer_by_any_route surroundings (some "false".toList)).1
      ⟨[], .parse, [.switch (.letters .verbose [.pretty]), .sql "LIMIT 1".toList (by decide)],
        none⟩ (by decide) "LIMIT 1".toList _ rfl).1 rfl
  · exact (hfault ⟨[], .segment, [.letterApart [] "r.sql".toList (by decide)], none⟩
      (by decide) rfl).1 _ _ rfl rfl (fun _ => by simp)
  · apply hinput terminal (fun _ => rfl)
    intro heq
    have hsame : shown terminal ["segment"] none = shown surroundings ["segment"] none :=
      congrArg Outcome.shown heq
    rw [hterminal, hpiped] at hsame
    exact absurd (congrArg Prod.fst hsame) (by decide)
  · exact hboth ⟨[], .parse, [.sql "LIMIT 1".toList (by decide), .letterJoined [] "q.sql".toList
      (by decide)], none⟩ (by decide) (by decide)

end SqlClauses.Command
