import SqlClauses.Proofs.Command.Reading

/-!
# Calls that are carried out

Nothing but a line is carried out. Whatever the arguments of a call are, each of them that is read
without a refusal is a part of a line as it may be written, and the parts are put together argument
by argument.

* `exists_flags_of_readLetters`: a group of letters is of flags, and may end in that of the file.
* `isLeft_of_read`: what is read behind the action are items and escaped texts.
* `exists_line_of_ofArguments`: what is carried out is a line.
-/

namespace SqlClauses.Command

theorem error_ne_ok {α : Type} {refusal : Refusal} {a : α} :
    (.error refusal : Except Refusal α) ≠ .ok a := by simp

/-- What goes on behind a step is reached only through the step. -/
theorem exists_of_bind_eq_ok {α β : Type} {x : Except Refusal α} {f : α → Except Refusal β} {b : β}
    (h : (x >>= f) = .ok b) : ∃ a, x = .ok a ∧ f a = .ok b := by
  cases x with
  | error refusal => exact absurd h error_ne_ok
  | ok a => exact ⟨a, rfl, h⟩

/-! ## Single arguments -/

namespace Argument

variable {argument : Text}

/-- A hyphen with anything behind it does not stand for itself. -/
theorem ofText_ne_plain (letter : Char) (rest text : Text) :
    ofText ('-' :: letter :: rest) ≠ .plain text := by
  unfold ofText
  split
  · simp
  · unfold ofLong
    split <;> simp
  · simp
  · next h => exact absurd rfl (h letter rest)

theorem eq_of_ofText_plain {text : Text} (h : ofText argument = .plain text) :
    argument = text ∧ IsPlain text := by
  have hword := word_ofText argument
  rw [h] at hword
  obtain rfl : text = argument := hword
  refine ⟨rfl, ?_⟩
  cases text with
  | nil => exact .inl (by simp)
  | cons c rest =>
    by_cases hc : c = '-'
    · subst hc
      cases rest with
      | nil => exact .inr rfl
      | cons letter rest => exact absurd h (ofText_ne_plain letter rest _)
    · exact .inl (by simpa using hc)

theorem eq_of_ofText_short {letters : Text} (h : ofText argument = .short letters) :
    argument = '-' :: letters ∧ letters ≠ [] := by
  have hword := word_ofText argument
  rw [h] at hword
  refine ⟨hword.symm, ?_⟩
  rintro rfl
  obtain rfl : ['-'] = argument := hword
  exact absurd h (by decide)

theorem eq_of_ofText_long {name : Text} {value : Option Text}
    (h : ofText argument = .long name value) :
    argument = '-' :: '-' :: (name ++ value.elim [] ('=' :: ·)) := by
  rw [← word_ofText argument, h]
  rfl

theorem eq_word_of_ofText_long {flag : Flag} (h : ofText argument = .long flag.name none) :
    argument = (Switch.named flag).word := by
  rw [eq_of_ofText_long h]
  show _ :: _ :: (_ ++ []) = _
  rw [List.append_nil]
  rfl

theorem eq_of_ofText_escape (h : ofText argument = .escape) : argument = ['-', '-'] := by
  rw [← word_ofText argument, h]
  rfl

end Argument

/-! ## Flags -/

namespace Flags

variable {flags after : Flags}

theorem exists_flag_of_setLetter {letter : Char} (h : flags.setLetter letter = .ok after) :
    ∃ flag : Flag, letter = flag.letter := by
  unfold setLetter at h
  by_cases hv : letter = 'v'
  · exact ⟨.verbose, hv⟩
  · by_cases hp : letter = 'p'
    · exact ⟨.pretty, hp⟩
    · rw [if_neg hv, if_neg hp] at h
      exact absurd h error_ne_ok

theorem exists_flag_of_setName {name : Text} {value : Option Text}
    (h : flags.setName name value = .ok after) :
    value = Option.none ∧ ∃ flag : Flag, name = flag.name := by
  cases value with
  | some value => exact absurd h error_ne_ok
  | none =>
    refine ⟨rfl, ?_⟩
    by_cases hv : name = "verbose".toList
    · exact ⟨.verbose, hv⟩
    · by_cases hp : name = "pretty".toList
      · exact ⟨.pretty, hp⟩
      · rw [setName, if_neg (by simp), if_neg hv, if_neg hp] at h
        exact absurd h error_ne_ok

end Flags

/-- Letters of flags that are not none are an argument. -/
theorem exists_switch_of_letters {flags : List Flag} (h : flags ≠ []) :
    ∃ given : Switch, given.word = '-' :: flags.map Flag.letter := by
  obtain ⟨first, others, rfl⟩ := List.exists_cons_of_ne_nil h
  exact ⟨.letters first others, rfl⟩

/-! ## Behind the action -/

namespace Options

variable {action : Action} {options after : Options} {expectsFile : Bool}

/-- A group of letters is one of flags, and may end in that of the file, with or without a value. -/
theorem exists_flags_of_readLetters {letters : Text}
    (h : options.readLetters action letters = .ok (after, expectsFile)) :
    ∃ flags : List Flag,
      letters = flags.map Flag.letter ∧ expectsFile = false ∨
      letters = flags.map Flag.letter ++ ['f'] ∧ expectsFile = true ∨
      ∃ value, value ≠ [] ∧ letters = flags.map Flag.letter ++ 'f' :: value ∧
        expectsFile = false := by
  induction letters generalizing options with
  | nil => exact ⟨[], .inl ⟨rfl, (Prod.mk.inj (Except.ok.inj h)).2.symm⟩⟩
  | cons letter letters ih =>
    by_cases hletter : letter = 'f'
    · subst hletter
      refine ⟨[], .inr ?_⟩
      cases letters with
      | nil =>
        refine .inl ⟨rfl, ?_⟩
        rw [readLetters.eq_def] at h
        cases hquery : action.takesQuery with
        | true =>
          simp only [hquery, if_true] at h
          exact (Prod.mk.inj (Except.ok.inj h)).2.symm
        | false =>
          simp only [hquery, if_true, if_neg Bool.false_ne_true] at h
          exact absurd h error_ne_ok
      | cons c path =>
        rw [readLetters_file action options (List.cons_ne_nil c path)] at h
        obtain ⟨_, -, h⟩ := exists_of_bind_eq_ok h
        exact .inr ⟨c :: path, by simp, rfl, (Prod.mk.inj (Except.ok.inj h)).2.symm⟩
    · rw [readLetters.eq_def] at h
      simp only [if_neg hletter] at h
      obtain ⟨_, hset, hrest⟩ := exists_of_bind_eq_ok h
      obtain ⟨flag, rfl⟩ := Flags.exists_flag_of_setLetter hset
      obtain ⟨given, ⟨rfl, hfile⟩ | ⟨rfl, hfile⟩ | ⟨value, hvalue, rfl, hfile⟩⟩ := ih hrest
      · exact ⟨flag :: given, .inl ⟨rfl, hfile⟩⟩
      · exact ⟨flag :: given, .inr (.inl ⟨rfl, hfile⟩)⟩
      · exact ⟨flag :: given, .inr (.inr ⟨value, hvalue, rfl, hfile⟩)⟩

/-- A long argument is the name of a flag, or that of the file, with or without a value. -/
theorem exists_flag_of_readLong {name : Text} {value : Option Text}
    (h : options.readLong action name value = .ok (after, expectsFile)) :
    (value = Option.none ∧ expectsFile = false ∧ ∃ flag : Flag, name = flag.name) ∨
      name = "file".toList ∧ expectsFile = value.isNone := by
  by_cases hfile : (name = "file".toList && action.takesQuery) = true
  · rw [readLong.eq_def, if_pos hfile] at h
    refine .inr ⟨by simpa using (Bool.and_eq_true_iff.1 hfile).1, ?_⟩
    cases value with
    | none => exact (Prod.mk.inj (Except.ok.inj h)).2.symm
    | some path =>
      obtain ⟨_, -, h⟩ := exists_of_bind_eq_ok h
      exact (Prod.mk.inj (Except.ok.inj h)).2.symm
  · rw [readLong.eq_def, if_neg hfile] at h
    obtain ⟨_, hset, h⟩ := exists_of_bind_eq_ok h
    obtain ⟨hnone, hflag⟩ := Flags.exists_flag_of_setName hset
    exact .inl ⟨hnone, (Prod.mk.inj (Except.ok.inj h)).2.symm, hflag⟩

/-- Arguments as they may stand behind an action. -/
def IsBehind (arguments : List Text) : Prop :=
  ∃ items : List Item, ∃ escaped : Option (List Text),
    arguments = items.flatMap Item.words ++ escaped.elim [] (['-', '-'] :: ·)

theorem IsBehind.cons (item : Item) {arguments : List Text} (h : IsBehind arguments) :
    IsBehind (item.words ++ arguments) := by
  obtain ⟨items, escaped, rfl⟩ := h
  exact ⟨item :: items, escaped, by rw [List.flatMap_cons, List.append_assoc]⟩

/-- Arguments as they may be left to read. If the file is expected, it comes first. -/
def IsLeft : Bool → List Text → Prop
  | false, arguments => IsBehind arguments
  | true, arguments => ∃ path rest, IsPlain path ∧ arguments = path :: rest ∧ IsBehind rest

/-- What is read behind an action may stand there. -/
theorem isLeft_of_read {arguments : List Text}
    (h : read action expectsFile options arguments = .ok after) : IsLeft expectsFile arguments := by
  -- an option without its value leaves the next argument to the case where the file is expected
  induction arguments generalizing expectsFile options with
  | nil =>
    cases expectsFile with
    | true => exact absurd h error_ne_ok
    | false => exact ⟨[], Option.none, rfl⟩
  | cons argument rest ih =>
    cases expectsFile with
    | true =>
      cases hargument : Argument.ofText argument with
      | plain path =>
        rw [read_path hargument] at h
        obtain ⟨_, -, hrest⟩ := exists_of_bind_eq_ok h
        obtain ⟨rfl, hplain⟩ := Argument.eq_of_ofText_plain hargument
        exact ⟨argument, rest, hplain, rfl, ih hrest⟩
      | _ =>
        rw [read.eq_def] at h
        simp only [hargument] at h
        exact absurd h error_ne_ok
    | false =>
      show IsBehind (argument :: rest)
      cases hargument : Argument.ofText argument with
      | escape =>
        rw [Argument.eq_of_ofText_escape hargument]
        exact ⟨[], some rest, rfl⟩
      | plain text =>
        rw [read_of_plain hargument] at h
        obtain ⟨_, -, hrest⟩ := exists_of_bind_eq_ok h
        obtain ⟨rfl, hplain⟩ := Argument.eq_of_ofText_plain hargument
        have hleft : IsBehind rest := ih hrest
        exact hleft.cons (.sql argument hplain)
      | long name value =>
        rw [read_of_long hargument] at h
        obtain ⟨⟨_, expects⟩, hlong, hrest⟩ := exists_of_bind_eq_ok h
        have hleft : IsLeft expects rest := ih hrest
        obtain ⟨rfl, rfl, flag, rfl⟩ | ⟨rfl, rfl⟩ := exists_flag_of_readLong hlong
        · rw [Argument.eq_word_of_ofText_long hargument]
          exact IsBehind.cons (.switch (.named flag)) hleft
        · rw [Argument.eq_of_ofText_long hargument]
          cases value with
          | none =>
            obtain ⟨path, rest, hplain, rfl, hbehind⟩ := hleft
            exact hbehind.cons (.fileApart path hplain)
          | some path => exact IsBehind.cons (.fileJoined path) hleft
      | short letters =>
        rw [read_of_short hargument] at h
        obtain ⟨⟨_, expects⟩, hletters, hrest⟩ := exists_of_bind_eq_ok h
        have hleft : IsLeft expects rest := ih hrest
        obtain ⟨rfl, hne⟩ := Argument.eq_of_ofText_short hargument
        obtain ⟨flags, ⟨rfl, rfl⟩ | ⟨rfl, rfl⟩ | ⟨value, hvalue, rfl, rfl⟩⟩ :=
          exists_flags_of_readLetters hletters
        · obtain ⟨given, hgiven⟩ := exists_switch_of_letters (by simpa using hne)
          rw [← hgiven]
          exact IsBehind.cons (.switch given) hleft
        · obtain ⟨path, rest, hplain, rfl, hbehind⟩ := hleft
          exact hbehind.cons (.letterApart flags path hplain)
        · exact IsBehind.cons (.letterJoined flags value hvalue) hleft

end Options

/-! ## Whole calls -/

theorem Action.eq_name_of_ofName? {name : Text} {action : Action} (h : ofName? name = some action) :
    name = action.name := by
  unfold ofName? at h
  split at h
  · next hname => exact hname.trans (congrArg Action.name (Option.some.inj h))
  · split at h
    · next hname => exact hname.trans (congrArg Action.name (Option.some.inj h))
    · split at h
      · next hname => exact hname.trans (congrArg Action.name (Option.some.inj h))
      · exact absurd h (by simp)

namespace Invocation

theorem exists_flags_of_readLetters {flags after : Flags} {letters : Text}
    (h : readLetters flags letters = .ok after) :
    ∃ given : List Flag, letters = given.map Flag.letter := by
  induction letters generalizing flags with
  | nil => exact ⟨[], rfl⟩
  | cons letter letters ih =>
    rw [readLetters] at h
    by_cases hletter : letter = 'V'
    · rw [if_pos hletter] at h
      exact absurd h error_ne_ok
    · rw [if_neg hletter] at h
      obtain ⟨_, hset, hrest⟩ := exists_of_bind_eq_ok h
      obtain ⟨flag, rfl⟩ := Flags.exists_flag_of_setLetter hset
      obtain ⟨given, rfl⟩ := ih hrest
      exact ⟨flag :: given, rfl⟩

/-- What is read from before the action on are flags, an action, and what may stand behind it. -/
theorem exists_line_of_readFrom {flags : Flags} {setting : Option Text} {arguments : List Text}
    {call : Invocation} (h : readFrom flags setting arguments = .ok call) :
    ∃ line : Line, arguments = line.words := by
  induction arguments generalizing flags with
  | nil => exact absurd h error_ne_ok
  | cons argument rest ih =>
    rw [readFrom] at h
    cases hargument : Argument.ofText argument with
    | escape =>
      rw [hargument] at h
      exact absurd h error_ne_ok
    | plain name =>
      rw [hargument] at h
      dsimp only at h
      cases hname : Action.ofName? name with
      | none =>
        rw [hname] at h
        exact absurd h error_ne_ok
      | some action =>
        rw [hname] at h
        obtain ⟨_, hread, -⟩ := exists_of_bind_eq_ok h
        obtain ⟨items, escaped, rfl⟩ := Options.isLeft_of_read hread
        refine ⟨⟨[], action, items, escaped⟩, ?_⟩
        rw [(Argument.eq_of_ofText_plain hargument).1, Action.eq_name_of_ofName? hname]
        rfl
    | long name value =>
      rw [hargument] at h
      dsimp only at h
      split at h
      · exact absurd h error_ne_ok
      · obtain ⟨_, hset, hrest⟩ := exists_of_bind_eq_ok h
        obtain ⟨rfl, flag, rfl⟩ := Flags.exists_flag_of_setName hset
        obtain ⟨line, rfl⟩ := ih hrest
        refine ⟨{ line with switches := .named flag :: line.switches }, ?_⟩
        rw [Argument.eq_word_of_ofText_long hargument]
        rfl
    | short letters =>
      rw [hargument] at h
      obtain ⟨_, hletters, hrest⟩ := exists_of_bind_eq_ok h
      obtain ⟨given, rfl⟩ := exists_flags_of_readLetters hletters
      obtain ⟨rfl, hne⟩ := Argument.eq_of_ofText_short hargument
      obtain ⟨switch, hswitch⟩ := exists_switch_of_letters (by simpa using hne)
      obtain ⟨line, rfl⟩ := ih hrest
      refine ⟨{ line with switches := switch :: line.switches }, ?_⟩
      rw [← hswitch]
      rfl

end Invocation

/-- Nothing but a line is carried out. -/
theorem exists_line_of_ofArguments {arguments : List Text} {setting : Option Text}
    {call : Invocation} (h : Invocation.ofArguments arguments setting = .ok call) :
    ∃ line : Line, arguments = line.words :=
  Invocation.exists_line_of_readFrom h

end SqlClauses.Command
