import Mathlib.Data.List.Induction
import SqlClauses.Command.Line

/-!
# Reading a command line

The arguments of a call are read one by one, and each part of a line is read for what it says, in
whichever form it is written. So a line is read as a list of directives, and these are obeyed in
order as long as they make sense together.

* `Options.read_words`: the arguments of an item are read as its directives.
* `Options.obeyAll_eq`: when directives make sense together, and what they come to.
* `Invocation.ofArguments_words`: a line is carried out just when it is valid.
* `exists_line_of_ofArguments`: nothing else is carried out.
-/

namespace SqlClauses.Command

/-! ## Single arguments -/

namespace Argument

theorem ofText_of_isPlain {text : Text} (h : IsPlain text) : ofText text = .plain text := by
  rcases h with h | rfl
  · unfold ofText
    split
    · exact absurd rfl h
    · exact absurd rfl h
    · exact absurd rfl h
    · rfl
  · rfl

/-- A group of letters may end in that of the file, with anything behind it. -/
theorem ofText_letters (flags : List Flag) {rest : Text}
    (h : flags ≠ [] ∧ rest = [] ∨ rest.head? = some 'f') :
    ofText ('-' :: (flags.map Flag.letter ++ rest)) =
      .short (flags.map Flag.letter ++ rest) := by
  cases flags with
  | cons flag flags => cases flag <;> rfl
  | nil =>
    obtain ⟨hne, -⟩ | hhead := h
    · exact absurd rfl hne
    · obtain ⟨value, rfl⟩ := List.head?_eq_some_iff.1 hhead
      rfl

theorem ofText_word_named (flag : Flag) :
    ofText (Switch.named flag).word = .long flag.name none := by
  cases flag <;> rfl

theorem ofText_file (path : Text) :
    ofText ("--file=".toList ++ path) = .long "file".toList (some path) := rfl

/-- An argument as it was written. -/
def word : Argument → Text
  | escape => ['-', '-']
  | long name value => '-' :: '-' :: (name ++ value.elim [] ('=' :: ·))
  | short letters => '-' :: letters
  | plain text => text

theorem word_ofLong (text : Text) : (ofLong text).word = '-' :: '-' :: text := by
  unfold ofLong
  split
  · simp [word]
  · next c value hvalue =>
    have hc : (c != '=') = false := by
      have hhead := List.head?_dropWhile_not (· != '=') text
      rw [hvalue] at hhead
      simpa using hhead
    obtain rfl : c = '=' := by simpa using hc
    have htext := List.takeWhile_append_dropWhile (p := (· != '=')) (l := text)
    rw [hvalue] at htext
    simp [word, htext]

/-- Telling an argument apart loses nothing. -/
theorem word_ofText (text : Text) : (ofText text).word = text := by
  unfold ofText
  split
  · rfl
  · exact word_ofLong _
  · rfl
  · rfl

end Argument

/-! ## Flags -/

namespace Flags

/-- Sets a flag, which must not be set already. -/
def set (flags : Flags) : Flag → Except Refusal Flags
  | .verbose => flags.setVerbose
  | .pretty => flags.setPretty

/-- The flags of a list. -/
def ofList (given : List Flag) : Flags := ⟨.verbose ∈ given, .pretty ∈ given⟩

theorem setLetter_letter (flags : Flags) (flag : Flag) :
    flags.setLetter flag.letter = flags.set flag := by
  cases flag <;> rfl

theorem setName_name (flags : Flags) (flag : Flag) :
    flags.setName flag.name Option.none = flags.set flag := by
  cases flag <;> rfl

theorem set_ofList (given : List Flag) (flag : Flag) :
    (ofList given).set flag =
      if flag ∈ given then .error .badUsage else .ok (ofList (given ++ [flag])) := by
  cases flag with
  | verbose => by_cases h : .verbose ∈ given <;> simp [set, setVerbose, ofList, h]
  | pretty => by_cases h : .pretty ∈ given <;> simp [set, setPretty, ofList, h]

/-- Flags can be set together if none of them comes twice. -/
theorem foldlM_set_eq (given : List Flag) :
    given.foldlM set none = if given.Nodup then .ok (ofList given) else .error .badUsage := by
  induction given using List.reverseRecOn with
  | nil => rfl
  | append_singleton given flag ih =>
    have hnodup : (given ++ [flag]).Nodup ↔ given.Nodup ∧ flag ∉ given := by
      rw [(List.perm_append_singleton flag given).nodup_iff, List.nodup_cons, and_comm]
    rw [List.foldlM_append, ih]
    by_cases hgiven : given.Nodup
    · rw [if_pos hgiven]
      show ((ofList given).set flag >>= pure) = _
      rw [bind_pure, set_ofList]
      by_cases hflag : flag ∈ given
      · rw [if_pos hflag, if_neg fun h => (hnodup.1 h).2 hflag]
      · rw [if_neg hflag, if_pos (hnodup.2 ⟨hgiven, hflag⟩)]
    · rw [if_neg hgiven, if_neg fun h => hgiven (hnodup.1 h).1]
      rfl

end Flags

/-! ## Directives -/

namespace Options

/-- Does what a directive says. -/
def obey (action : Action) (options : Options) : Directive → Except Refusal Options
  | .flag flag => do return { options with flags := ← options.flags.set flag }
  | .sql text => options.setSql action text
  | .file path => options.setFile action path

/-- Does what directives say, in order. -/
def obeyAll (action : Action) (options : Options) (given : List Directive) :
    Except Refusal Options :=
  given.foldlM (obey action) options

@[simp] theorem obeyAll_nil (action : Action) (options : Options) :
    options.obeyAll action [] = .ok options := rfl

theorem obeyAll_cons (action : Action) (options : Options) (directive : Directive)
    (given : List Directive) :
    options.obeyAll action (directive :: given) =
      options.obey action directive >>= fun options => options.obeyAll action given :=
  List.foldlM_cons

theorem obeyAll_append (action : Action) (options : Options) (front back : List Directive) :
    options.obeyAll action (front ++ back) =
      options.obeyAll action front >>= fun options => options.obeyAll action back :=
  List.foldlM_append

theorem obeyAll_singleton (action : Action) (options : Options) (directive : Directive) :
    options.obeyAll action [directive] = options.obey action directive := by
  rw [obeyAll_cons]
  exact bind_pure _

/-! ### Reading -/

/-- Letters of flags are read as these flags. -/
theorem readLetters_append (action : Action) (options : Options) (flags : List Flag) (rest : Text) :
    options.readLetters action (flags.map Flag.letter ++ rest) =
      options.obeyAll action (flags.map .flag) >>= fun options =>
        options.readLetters action rest := by
  induction flags generalizing options with
  | nil => rfl
  | cons flag flags ih =>
    have hletter : flag.letter ≠ 'f' := by cases flag <;> decide
    rw [List.map_cons, List.map_cons, List.cons_append, readLetters.eq_def]
    simp only [if_neg hletter, Flags.setLetter_letter, ih, obeyAll_cons, obey, bind_assoc,
      pure_bind]

theorem readLetters_letters (action : Action) (options : Options) (flags : List Flag) :
    options.readLetters action (flags.map Flag.letter) =
      options.obeyAll action (flags.map .flag) >>= fun options => .ok (options, false) := by
  have h := readLetters_append action options flags []
  rwa [List.append_nil] at h

theorem readLong_name (action : Action) (options : Options) (flag : Flag) :
    options.readLong action flag.name Option.none =
      options.obey action (.flag flag) >>= fun options => .ok (options, false) := by
  have hname : flag.name ≠ "file".toList := by cases flag <;> decide
  rw [readLong, decide_eq_false hname, Bool.false_and, if_neg Bool.false_ne_true, obey,
    Flags.setName_name]
  simp only [bind_assoc, pure_bind]
  rfl

/-- The letter of the file takes the rest of the group. -/
theorem readLetters_file (action : Action) (options : Options) {value : Text} (h : value ≠ []) :
    options.readLetters action ('f' :: value) =
      options.obey action (.file (dropEquals value)) >>= fun options => .ok (options, false) := by
  rw [readLetters.eq_def]
  dsimp only
  rw [if_pos rfl]
  cases value with
  | nil => exact absurd rfl h
  | cons c path =>
    by_cases hc : c = '='
    · subst hc
      rfl
    · have hdrop : dropEquals (c :: path) = c :: path := by
        rw [dropEquals]
        simpa using hc
      rw [hdrop]
      split
      · next heq => exact absurd heq (by simp)
      · next heq => exact absurd (List.cons.inj heq).1 hc
      · rfl

section Cases

variable {action : Action} {options : Options} {argument : Text} {rest : List Text}

theorem read_of_plain {text : Text} (h : Argument.ofText argument = .plain text) :
    read action false options (argument :: rest) =
      options.setSql action text >>= fun options => read action false options rest := by
  rw [read.eq_def]
  dsimp only
  rw [h]

theorem read_of_long {name : Text} {value : Option Text}
    (h : Argument.ofText argument = .long name value) :
    read action false options (argument :: rest) =
      options.readLong action name value >>= fun state => read action state.2 state.1 rest := by
  rw [read.eq_def]
  dsimp only
  rw [h]

theorem read_of_short {letters : Text} (h : Argument.ofText argument = .short letters) :
    read action false options (argument :: rest) =
      options.readLetters action letters >>= fun state => read action state.2 state.1 rest := by
  rw [read.eq_def]
  dsimp only
  rw [h]

/-- The argument behind an option names the file. -/
theorem read_path {path : Text} (h : Argument.ofText argument = .plain path) :
    read action true options (argument :: rest) =
      options.obey action (.file path) >>= fun options => read action false options rest := by
  rw [read.eq_def]
  dsimp only
  rw [h]
  rfl

end Cases

/-- An argument that sets flags is read as these flags. -/
theorem read_word (action : Action) (options : Options) (given : Switch) (rest : List Text) :
    read action false options (given.word :: rest) =
      options.obeyAll action (given.flags.map .flag) >>= fun options =>
        read action false options rest := by
  cases given with
  | named flag =>
    rw [read_of_long (Argument.ofText_word_named flag), readLong_name, bind_assoc]
    exact congrArg (· >>= _) (obeyAll_singleton action options (.flag flag)).symm
  | letters first others =>
    have hgroup := Argument.ofText_letters (first :: others) (.inl ⟨by simp, rfl⟩)
    rw [List.append_nil] at hgroup
    show read action false options (('-' :: (first :: others).map Flag.letter) :: rest) = _
    rw [read_of_short hgroup, readLetters_letters, bind_assoc]
    rfl

/-! ### The option of the file -/

/-- An action that works on no query has no option for a file. -/
theorem obey_file_of_not_takesQuery {action : Action} (h : action.takesQuery = false)
    (options : Options) (path : Text) :
    options.obey action (.file path) = .error .badUsage := by
  rw [obey, setFile, h]
  rfl

theorem readLong_file_some (action : Action) (options : Options) (path : Text) :
    options.readLong action "file".toList (some path) =
      options.obey action (.file path) >>= fun options => .ok (options, false) := by
  cases h : action.takesQuery with
  | true => simp only [readLong, h]; rfl
  | false =>
    rw [obey_file_of_not_takesQuery h, readLong, h]
    rfl

/-- Without a value the name of the option waits for the next argument. -/
theorem readLong_file_none_bind (action : Action) (options : Options) {path : Text}
    (h : IsPlain path) (rest : List Text) :
    (options.readLong action "file".toList Option.none >>= fun state =>
        read action state.2 state.1 (path :: rest)) =
      options.obey action (.file path) >>= fun options => read action false options rest := by
  rw [← read_path (Argument.ofText_of_isPlain h)]
  cases hquery : action.takesQuery with
  | true => simp only [readLong, hquery]; rfl
  | false =>
    rw [read_path (Argument.ofText_of_isPlain h), obey_file_of_not_takesQuery hquery, readLong,
      hquery]
    rfl

/-- So does its letter. -/
theorem readLetters_file_bind (action : Action) (options : Options) {path : Text}
    (h : IsPlain path) (rest : List Text) :
    (options.readLetters action ['f'] >>= fun state =>
        read action state.2 state.1 (path :: rest)) =
      options.obey action (.file path) >>= fun options => read action false options rest := by
  rw [← read_path (Argument.ofText_of_isPlain h)]
  cases hquery : action.takesQuery with
  | true => simp only [readLetters, hquery]; rfl
  | false =>
    rw [read_path (Argument.ofText_of_isPlain h), obey_file_of_not_takesQuery hquery]
    simp only [readLetters, hquery]
    rfl

/-! ### Whole lines -/

/-- The arguments of an item are read as its directives. -/
theorem read_words (action : Action) (options : Options) (item : Item) (rest : List Text) :
    read action false options (item.words ++ rest) =
      options.obeyAll action item.directives >>= fun options =>
        read action false options rest := by
  cases item with
  | switch given => exact read_word action options given rest
  | sql text plain =>
    show read action false options (text :: rest) = _
    rw [read_of_plain (Argument.ofText_of_isPlain plain), Item.directives, obeyAll_singleton]
    rfl
  | fileJoined path =>
    show read action false options (("--file=".toList ++ path) :: rest) = _
    rw [read_of_long (Argument.ofText_file path), readLong_file_some, Item.directives,
      obeyAll_singleton, bind_assoc]
    rfl
  | fileApart path plain =>
    have hname : Argument.ofText "--file".toList = .long "file".toList Option.none := rfl
    show read action false options ("--file".toList :: path :: rest) = _
    rw [read_of_long hname, readLong_file_none_bind action options plain, Item.directives,
      obeyAll_singleton]
  | letterJoined flags value nonempty =>
    show read action false options (('-' :: (flags.map Flag.letter ++ 'f' :: value)) :: rest) = _
    rw [read_of_short (Argument.ofText_letters flags (.inr rfl)), readLetters_append,
      Item.directives, obeyAll_append]
    simp only [readLetters_file _ _ nonempty, obeyAll_singleton, bind_assoc]
    rfl
  | letterApart flags path plain =>
    show read action false options
      (('-' :: (flags.map Flag.letter ++ ['f'])) :: path :: rest) = _
    rw [read_of_short (Argument.ofText_letters flags (.inr rfl)), readLetters_append,
      Item.directives, obeyAll_append]
    simp only [bind_assoc, readLetters_file_bind _ _ plain, obeyAll_singleton]

theorem read_flatMap_words (action : Action) (options : Options) (items : List Item)
    (rest : List Text) :
    read action false options (items.flatMap Item.words ++ rest) =
      options.obeyAll action (items.flatMap Item.directives) >>= fun options =>
        read action false options rest := by
  induction items generalizing options with
  | nil => rfl
  | cons item items ih =>
    rw [List.flatMap_cons, List.flatMap_cons, List.append_assoc, read_words, obeyAll_append,
      bind_assoc]
    simp only [ih]

/-- Behind two hyphens every argument is the text of a query. -/
theorem read_escaped (action : Action) (options : Options) (escaped : Option (List Text)) :
    read action false options (escaped.elim [] (['-', '-'] :: ·)) =
      options.obeyAll action ((escaped.getD []).map .sql) := by
  cases escaped with
  | none => rfl
  | some texts =>
    show texts.foldlM (setSql action) options = (texts.map .sql).foldlM (obey action) options
    rw [List.foldlM_map]
    rfl

/-! ### Directives that are obeyed together -/

/-- What directives come to. -/
def ofDirectives (given : List Directive) : Options :=
  ⟨.ofList (given.filterMap Directive.flag?), (given.filterMap Directive.sql?).head?,
    (given.filterMap Directive.file?).head?⟩

/-- Directives make sense one by one: no flag is set twice, no text and no file is given twice, and
an action that works on no query is given neither. -/
def Consistent (action : Action) (given : List Directive) : Prop :=
  (given.filterMap Directive.flag?).Nodup ∧ (given.filterMap Directive.sql?).length ≤ 1 ∧
    (given.filterMap Directive.file?).length ≤ 1 ∧
    (∀ path ∈ given.filterMap Directive.file?, path ≠ []) ∧
    (action.takesQuery = true ∨
      given.filterMap Directive.sql? = [] ∧ given.filterMap Directive.file? = [])

instance (action : Action) (given : List Directive) : Decidable (Consistent action given) := by
  unfold Consistent
  infer_instance

theorem Consistent.of_append {action : Action} {front back : List Directive}
    (h : Consistent action (front ++ back)) : Consistent action front := by
  obtain ⟨hflags, hsqls, hfiles, hnames, hquery⟩ := h
  simp only [List.filterMap_append, List.length_append] at hflags hsqls hfiles hnames hquery
  refine ⟨(List.nodup_append.1 hflags).1, by omega, by omega, fun path hpath => ?_, ?_⟩
  · exact hnames path (List.mem_append_left _ hpath)
  · exact hquery.imp_right fun ⟨hsql, hfile⟩ =>
      ⟨(List.append_eq_nil_iff.1 hsql).1, (List.append_eq_nil_iff.1 hfile).1⟩

section Consistent

variable {action : Action} {given : List Directive}

theorem consistent_append_flag_iff (h : Consistent action given) (flag : Flag) :
    Consistent action (given ++ [.flag flag]) ↔ flag ∉ given.filterMap Directive.flag? := by
  obtain ⟨hflags, hsqls, hfiles, hnames, hquery⟩ := h
  have hnodup := (List.perm_append_singleton flag (given.filterMap Directive.flag?)).nodup_iff
  simp only [Consistent, List.filterMap_append, Directive.flag?, Directive.sql?,
    Directive.file?, List.filterMap_cons, List.filterMap_nil, List.append_nil, hnodup,
    List.nodup_cons]
  exact ⟨fun h => h.1.1, fun h => ⟨⟨h, hflags⟩, hsqls, hfiles, hnames, hquery⟩⟩

theorem consistent_append_sql_iff (h : Consistent action given) (text : Text) :
    Consistent action (given ++ [.sql text]) ↔
      action.takesQuery = true ∧ given.filterMap Directive.sql? = [] := by
  obtain ⟨hflags, -, hfiles, hnames, -⟩ := h
  simp only [Consistent, List.filterMap_append, Directive.flag?, Directive.sql?,
    Directive.file?, List.filterMap_cons, List.filterMap_nil, List.append_nil,
    List.length_append, List.length_singleton, List.append_eq_nil_iff, List.cons_ne_nil,
    and_false, false_and, or_false]
  constructor
  · rintro ⟨-, hone, -, -, htakes⟩
    exact ⟨htakes, List.length_eq_zero_iff.1 (by omega)⟩
  · rintro ⟨htakes, hnil⟩
    exact ⟨hflags, by simp [hnil], hfiles, hnames, htakes⟩

theorem consistent_append_file_iff (h : Consistent action given) (path : Text) :
    Consistent action (given ++ [.file path]) ↔
      (action.takesQuery = true ∧ given.filterMap Directive.file? = []) ∧ path ≠ [] := by
  obtain ⟨hflags, hsqls, -, hnames, -⟩ := h
  simp only [Consistent, List.filterMap_append, Directive.flag?, Directive.sql?,
    Directive.file?, List.filterMap_cons, List.filterMap_nil, List.append_nil,
    List.length_append, List.length_singleton, List.append_eq_nil_iff, List.cons_ne_nil,
    and_false, or_false, List.forall_mem_append, List.forall_mem_singleton]
  constructor
  · rintro ⟨-, -, hone, ⟨-, hne⟩, htakes⟩
    exact ⟨⟨htakes, List.length_eq_zero_iff.1 (by omega)⟩, hne⟩
  · rintro ⟨⟨htakes, hnil⟩, hne⟩
    exact ⟨hflags, hsqls, by simp [hnil], ⟨hnames, hne⟩, htakes⟩

/-- One directive more is obeyed if it makes sense with those before it. -/
theorem obey_ofDirectives (h : Consistent action given) (directive : Directive) :
    (ofDirectives given).obey action directive =
      if Consistent action (given ++ [directive]) then .ok (ofDirectives (given ++ [directive]))
      else .error .badUsage := by
  cases directive with
  | flag flag =>
    rw [if_congr (consistent_append_flag_iff h flag) rfl rfl, obey, ofDirectives, Flags.set_ofList]
    by_cases hflag : flag ∈ given.filterMap Directive.flag?
    · rw [if_pos hflag, if_neg (not_not.2 hflag)]
      rfl
    · rw [if_neg hflag, if_pos hflag]
      simp [ofDirectives, Directive.flag?, Directive.sql?, Directive.file?]
  | sql text =>
    rw [if_congr (consistent_append_sql_iff h text) rfl rfl, obey, setSql, ofDirectives]
    by_cases hfree : action.takesQuery = true ∧ given.filterMap Directive.sql? = []
    · rw [if_pos hfree, if_pos (by simp [hfree])]
      simp [ofDirectives, hfree.2, List.filterMap_cons, Directive.flag?, Directive.sql?,
        Directive.file?]
    · rw [if_neg hfree, if_neg (by simpa using hfree)]
  | file path =>
    rw [if_congr (consistent_append_file_iff h path) rfl rfl, obey, setFile, ofDirectives]
    by_cases hfree :
      (action.takesQuery = true ∧ given.filterMap Directive.file? = []) ∧ path ≠ []
    · rw [if_pos hfree, if_pos (by simp [hfree])]
      simp [ofDirectives, hfree.1.2, List.filterMap_cons, Directive.flag?, Directive.sql?,
        Directive.file?]
    · rw [if_neg hfree, if_neg (by simpa using hfree)]

end Consistent

/-- Directives are obeyed if they make sense together. -/
theorem obeyAll_eq (action : Action) (given : List Directive) :
    none.obeyAll action given =
      if Consistent action given then .ok (ofDirectives given) else .error .badUsage := by
  -- one directive is added at the end, since what it meets are the options of those before it
  induction given using List.reverseRecOn with
  | nil => exact (if_pos (by simp [Consistent])).symm
  | append_singleton given directive ih =>
    rw [obeyAll_append, ih]
    by_cases h : Consistent action given
    · rw [if_pos h, ← obey_ofDirectives h]
      exact obeyAll_singleton action (ofDirectives given) directive
    · rw [if_neg h, if_neg fun happend => h happend.of_append]
      rfl

end Options

/-! ## Before the action -/

theorem Action.ofName?_name (action : Action) : ofName? action.name = some action := by
  cases action <;> rfl

theorem Action.ofText_name (action : Action) :
    Argument.ofText action.name = .plain action.name := by
  cases action <;> rfl

namespace Flags

/-- Whether output is pretty, by the flags on both sides. -/
theorem decidePretty_ofList (before behind : List Flag) (setting : Option Text) :
    (ofList before).decidePretty (ofList behind) setting =
      if setting = Option.none ∨ setting = some "true".toList ∨ setting = some "false".toList ∨
        .pretty ∈ before ∧ .pretty ∈ behind
      then .ok (.pretty ∈ before ++ behind ∨ setting = some "true".toList : Bool)
      else .error .badUsage := by
  by_cases hboth : .pretty ∈ before ∧ .pretty ∈ behind
  · simp [decidePretty, ofList, hboth]
  · rw [decidePretty.eq_def, if_neg (by simpa [ofList] using hboth)]
    cases setting with
    | none => simp [ofList]
    | some text =>
      by_cases htrue : text = "true".toList
      · simp [htrue]
      · by_cases hfalse : text = "false".toList
        · subst hfalse
          simp [ofList]
        · dsimp only
          rw [if_neg htrue, if_neg hfalse, if_neg]
          simp only [Option.some.injEq, htrue, hfalse, hboth, reduceCtorEq, or_false,
            not_false_eq_true]

end Flags

namespace Invocation

theorem readLetters_letters (flags : Flags) (given : List Flag) :
    readLetters flags (given.map Flag.letter) = given.foldlM Flags.set flags := by
  induction given generalizing flags with
  | nil => rfl
  | cons flag given ih =>
    have hletter : flag.letter ≠ 'V' := by cases flag <;> decide
    rw [List.map_cons, readLetters, if_neg hletter, Flags.setLetter_letter, List.foldlM_cons]
    simp only [ih]

theorem readFrom_word (flags : Flags) (setting : Option Text) (given : Switch) (rest : List Text) :
    readFrom flags setting (given.word :: rest) =
      given.flags.foldlM Flags.set flags >>= fun flags => readFrom flags setting rest := by
  cases given with
  | named flag =>
    have hname : flag.name ≠ "version".toList := by cases flag <;> decide
    rw [readFrom, Argument.ofText_word_named]
    dsimp only
    rw [decide_eq_false hname, Bool.false_and, if_neg Bool.false_ne_true, Flags.setName_name,
      Switch.flags, List.foldlM_cons, bind_assoc]
    rfl
  | letters first others =>
    have hgroup := Argument.ofText_letters (first :: others) (.inl ⟨by simp, rfl⟩)
    rw [List.append_nil] at hgroup
    show readFrom flags setting (('-' :: (first :: others).map Flag.letter) :: rest) = _
    rw [readFrom, hgroup]
    dsimp only
    rw [readLetters_letters]
    rfl

/-- The arguments before the action are read as the flags that they set. -/
theorem readFrom_words (flags : Flags) (setting : Option Text) (switches : List Switch)
    (rest : List Text) :
    readFrom flags setting (switches.map Switch.word ++ rest) =
      (switches.flatMap Switch.flags).foldlM Flags.set flags >>= fun flags =>
        readFrom flags setting rest := by
  induction switches generalizing flags with
  | nil => rfl
  | cons given switches ih =>
    rw [List.map_cons, List.cons_append, readFrom_word, List.flatMap_cons, List.foldlM_append,
      bind_assoc]
    simp only [ih]

end Invocation

/-! ## Whole lines -/

namespace Line

theorem source_ofDirectives (line : Line) :
    (Options.ofDirectives line.directives).source =
      if line.sqls = [] ∨ line.files = [] then .ok line.source else .error .badUsage := by
  show Options.source ⟨_, line.sqls.head?, line.files.head?⟩ = _
  unfold Line.source
  cases hsqls : line.sqls with
  | nil => cases hfiles : line.files <;> rfl
  | cons sql sqls => cases hfiles : line.files <;> rfl

/-- A line makes sense if it does on both sides of the action, if its directives do, and if only one
source is named. -/
theorem valid_iff (line : Line) (setting : Option Text) :
    line.Valid setting ↔ line.before.Nodup ∧ Options.Consistent line.action line.directives ∧
      (line.sqls = [] ∨ line.files = []) ∧
      (setting = none ∨ setting = some "true".toList ∨ setting = some "false".toList ∨
        .pretty ∈ line.before ∧ .pretty ∈ line.behind) := by
  constructor
  · rintro ⟨hbefore, hbehind, hone, htakes, hnames, hsetting⟩
    refine ⟨hbefore, ⟨hbehind, ?_, ?_, hnames, htakes⟩, ?_, hsetting⟩
    · exact Nat.le_trans (Nat.le_add_right _ _) hone
    · exact Nat.le_trans (Nat.le_add_left _ _) hone
    · rw [← List.length_eq_zero_iff, ← List.length_eq_zero_iff]
      omega
  · rintro ⟨hbefore, ⟨hbehind, hsqls, hfiles, hnames, htakes⟩, hone, hsetting⟩
    refine ⟨hbefore, hbehind, ?_, htakes, hnames, hsetting⟩
    rcases hone with hnil | hnil
    · rw [hnil, List.length_nil, Nat.zero_add]
      exact hfiles
    · rw [hnil, List.length_nil, Nat.add_zero]
      exact hsqls

end Line

/-- What goes on behind a test that can refuse. -/
theorem ite_bind {α β : Type} (p : Prop) [Decidable p] (a : α) (f : α → Except Refusal β) :
    ((if p then .ok a else .error .badUsage : Except Refusal α) >>= f) =
      if p then f a else .error .badUsage := by
  by_cases h : p
  · rw [if_pos h, if_pos h]
    rfl
  · rw [if_neg h, if_neg h]
    rfl

namespace Invocation

/-- From the action on, the directives are obeyed and looked at together. -/
theorem readFrom_action (flags : Flags) (line : Line) (setting : Option Text) :
    readFrom flags setting (line.action.name ::
      (line.items.flatMap Item.words ++ line.escaped.elim [] (['-', '-'] :: ·))) =
    (Options.none.obeyAll line.action line.directives >>= fun options =>
      options.source >>= fun source =>
      flags.decidePretty options.flags setting >>= fun pretty =>
      .ok ⟨line.action.request source, flags.verbose || options.flags.verbose, pretty⟩) := by
  rw [readFrom, Action.ofText_name]
  dsimp only
  rw [Action.ofName?_name]
  dsimp only
  rw [ofAction, Options.read_flatMap_words]
  simp only [Options.read_escaped]
  rw [Line.directives, Options.obeyAll_append]
  rfl

/-- A line is carried out just when it is valid, and as it says. -/
theorem ofArguments_words (line : Line) (setting : Option Text) :
    ofArguments line.words setting =
      if line.Valid setting then .ok (line.invocation setting) else .error .badUsage := by
  rw [if_congr (line.valid_iff setting) rfl rfl, ite_and, ite_and, ite_and, ofArguments,
    Line.words, readFrom_words, Flags.foldlM_set_eq, ite_bind]
  refine if_congr Iff.rfl ?_ rfl
  rw [readFrom_action, Options.obeyAll_eq, ite_bind]
  refine if_congr Iff.rfl ?_ rfl
  rw [Line.source_ofDirectives, ite_bind]
  refine if_congr Iff.rfl ?_ rfl
  show (Flags.decidePretty _ (.ofList line.behind) setting >>= _) = _
  rw [Flags.decidePretty_ofList, ite_bind]
  refine if_congr Iff.rfl (congrArg Except.ok ?_) rfl
  have hverbose : ((Flags.ofList line.before).verbose || (Flags.ofList line.behind).verbose) =
      decide (.verbose ∈ line.before ++ line.behind) := by
    simp [Flags.ofList]
  rw [Line.invocation, ← hverbose]
  rfl

end Invocation

end SqlClauses.Command
