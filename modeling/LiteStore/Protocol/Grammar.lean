import LiteStore.Protocol.Model

/-!
# The grammar of a command line

`parse_command` strips, splits up to three ways and counts the arguments of nine commands. Said by
the words of the text alone: which texts it accepts, which error the others raise, and what the
arguments of an accepted one are.
-/

namespace LiteStore
set_option autoImplicit false
open Py

/-- How many words a command takes after its verb. -/
def CommandName.TakesWords : CommandName → Nat → Prop
  | .PING, n | .FLUSHALL, n => n = 0
  | .GET, n | .DEL, n | .TTL, n => n = 1
  | .EXPIRE, n => n = 2
  | .KEYS, n => n ≤ 1
  | .MGET, n => 1 ≤ n
  | .SET, n => 2 ≤ n

/-- How many arguments a request has: the words of a value of `SET` are one. -/
def CommandName.TakesArgs : CommandName → Nat → Prop
  | .SET, n => n = 2
  | command, n => command.TakesWords n

/-- A request that `parse_command` can give. -/
def CommandRequest.Accepted (request : CommandRequest) : Prop := request.command.TakesArgs request.args.length

theorem CommandName.takesArgs_iff {command : CommandName} (other : command ≠ .SET) (n : Nat) :
    command.TakesArgs n ↔ command.TakesWords n := by
  cases command
  case SET => exact absurd rfl other
  all_goals rfl

/-- `value` is the text from the first character of the third word to the last character that is
not white. -/
structure ValueText (text verb key third value : List Char) : Prop where
  placed : ∃ front gap gap' back, Blank front ∧ Blank gap ∧ Blank gap' ∧ Blank back ∧
    text = front ++ verb ++ gap ++ key ++ gap' ++ value ++ back
  starts : third <+: value
  ends : ∃ some : value ≠ [], isSpace (value.getLast some) = false

/-- What `parse_command` does with a text, by its words. -/
structure Grammar (text : List Char) (requestId clientId : Option String)
    (parsed : Except LiteStoreError CommandRequest) : Prop where
  empty : (∃ message, parsed = .error (invalidRequestError message)) ↔ split text = []
  unknown : (∃ message context, parsed = .error (unknownCommandError message context)) ↔
    ∃ verb words, split text = verb :: words ∧ ∀ command : CommandName,
      String.ofList (upper verb) ≠ command.value
  known : ∀ verb words, split text = verb :: words → ∀ command : CommandName,
    String.ofList (upper verb) = command.value →
      ((∃ request, parsed = .ok request) ↔ command.TakesWords words.length) ∧
      ((∃ message context, parsed = .error (wrongArityError message context)) ↔
        ¬ command.TakesWords words.length)
  request : ∀ request, parsed = .ok request → ∃ verb words, split text = verb :: words ∧
    String.ofList (upper verb) = request.command.value ∧
    request.requestId = requestId ∧ request.clientId = clientId ∧
    (request.command ≠ .SET → request.args = words.map String.ofList) ∧
    (request.command = .SET → ∃ key third more value, words = key :: third :: more ∧
      ValueText text verb key third value ∧ request.args = [String.ofList key, String.ofList value])

/-! ## Words and arguments -/

/-- The text after the second word, without the white space in front of it. -/
def trailingText (text : List Char) : List Char := (afterFirst (afterFirst text)).dropWhile isSpace

/-- The arguments `_split_command` finds: the words, for `SET` two of them at most. -/
def argumentsOf (commandLine : List Char) (verb : String) (words : List (List Char)) : List String :=
  if verb = CommandName.SET.value then
    match words with
    | key :: _ :: _ => [String.ofList key, String.ofList (trailingText commandLine)]
    | words => words.map String.ofList
  else words.map String.ofList

theorem splitCommand_words {commandLine verb : List Char} {words : List (List Char)}
    (h : split commandLine = verb :: words) :
    splitCommand commandLine =
      (String.ofList (upper verb), argumentsOf commandLine (String.ofList (upper verb)) words) := by
  have word : commandLine.dropWhile isSpace ≠ [] := fun none => by
    rw [split_nil.mpr none] at h
    cases h
  obtain ⟨rfl, rfl⟩ := List.cons.inj ((split_cons word).symm.trans h)
  unfold splitCommand
  by_cases second : (afterFirst commandLine).dropWhile isSpace = []
  · rw [splitMax_succ word, splitMax_nil second, split_nil.mpr second]
    simp [argumentsOf]
  · rw [splitMax_succ word, splitMax_zero second]
    unfold argumentsOf
    dsimp only
    rw [split_dropWhile]
    split
    · rw [splitMax_succ word, splitMax_succ second, split_cons second]
      by_cases third : (afterFirst (afterFirst commandLine)).dropWhile isSpace = []
      · rw [splitMax_nil third, split_nil.mpr third]
        rfl
      · rw [splitMax_zero third, split_cons third]
        rfl
    · rfl

theorem argumentsOf_words {command : CommandName} (other : command ≠ .SET)
    (commandLine : List Char) (words : List (List Char)) :
    argumentsOf commandLine command.value words = words.map String.ofList :=
  if_neg fun same => other (by simpa using congrArg CommandName.ofValue? same)

/-- The words are as many as a command takes if the arguments are; those of a value are one. -/
theorem takesArgs_argumentsOf (commandLine : List Char) (command : CommandName)
    (words : List (List Char)) :
    command.TakesArgs (argumentsOf commandLine command.value words).length ↔
      command.TakesWords words.length := by
  by_cases set : command = .SET
  · subst set
    match words with
    | [] | [_] | _ :: _ :: _ =>
      simp [argumentsOf, CommandName.TakesArgs, CommandName.TakesWords]
  · rw [argumentsOf_words set, List.length_map, CommandName.takesArgs_iff set]

/-! ## The arity checks -/

/-- A request, or an error about the number of its arguments. -/
def Counted (fits : Prop) (request : CommandRequest)
    (parsed : Except LiteStoreError CommandRequest) : Prop :=
  (fits ∧ parsed = .ok request) ∨
    (¬ fits ∧ ∃ message context, parsed = .error (wrongArityError message context))

theorem counted_ensureArity (verb : String) (args : List String) (n : Nat) (request : CommandRequest) :
    Counted (args.length = n) request (do ensureArity verb args n; return request) := by
  by_cases fits : args.length = n
  · refine .inl ⟨fits, ?_⟩
    rw [ensureArity, if_neg (not_not.mpr fits)]
    rfl
  · refine .inr ⟨fits, ?_⟩
    rw [ensureArity, if_pos fits]
    exact ⟨_, _, rfl⟩

/-- A verb that is the name of a command. -/
theorem parseCommand_named {rawCommand : String} (requestId clientId : Option String)
    {command : CommandName} {args : List String} (line : strip rawCommand.toList ≠ [])
    (parts : splitCommand (strip rawCommand.toList) = (command.value, args)) :
    Counted (command.TakesArgs args.length) { command, args, requestId, clientId }
      (parseCommand rawCommand requestId clientId) := by
  unfold parseCommand
  simp only [line, parts, if_false, CommandName.ofValue?_value]
  cases command
  case MGET =>
    by_cases none : args.length < 1
    · exact .inr ⟨Nat.not_le.mpr none, _, _, if_pos none⟩
    · exact .inl ⟨Nat.not_lt.mp none, if_neg none⟩
  case KEYS =>
    by_cases many : args.length > 1
    · exact .inr ⟨Nat.not_le.mpr many, _, _, if_pos many⟩
    · exact .inl ⟨Nat.not_lt.mp many, if_neg many⟩
  case PING | FLUSHALL =>
    obtain ⟨none, parsed⟩ | wrong := counted_ensureArity _ args 0 _
    · exact .inl ⟨none, by simpa [List.eq_nil_of_length_eq_zero none] using parsed⟩
    · exact .inr wrong
  all_goals exact counted_ensureArity _ args _ _

theorem parseCommand_unnamed {rawCommand verb : String} {requestId clientId : Option String}
    {args : List String} (line : strip rawCommand.toList ≠ [])
    (parts : splitCommand (strip rawCommand.toList) = (verb, args))
    (unnamed : ∀ command : CommandName, verb ≠ command.value) :
    parseCommand rawCommand requestId clientId =
      .error (unknownCommandError s!"Unsupported command: {verb}" [("command", verb)]) := by
  have none : CommandName.ofValue? verb = none := by
    rw [CommandName.ofValue?, List.find?_eq_none]
    intro command _ e
    exact unnamed command (of_decide_eq_true e).symm
  unfold parseCommand
  simp only [line, parts, if_false, none]

/-! ## The whole line -/

/-- The value of `SET` stands in the text as it is. -/
theorem valueText_trailing {text verb key third : List Char} {more : List (List Char)}
    (h : split text = verb :: key :: third :: more) :
    ValueText text verb key third (trailingText (strip text)) := by
  obtain ⟨white, blank, stripped⟩ := strip_parts text
  have last (some : strip text ≠ []) := getLast_strip some
  rw [← split_strip] at h
  generalize strip text = line at *
  have first : line.dropWhile isSpace ≠ [] := fun none => by simp [split_nil.mpr none] at h
  obtain ⟨rfl, rest⟩ := List.cons.inj ((split_cons first).symm.trans h)
  have next : (afterFirst line).dropWhile isSpace ≠ [] := fun none => by
    simp [split_nil.mpr none] at rest
  obtain ⟨rfl, others⟩ := List.cons.inj ((split_cons next).symm.trans rest)
  have word : trailingText line ≠ [] := fun none => by simp [split_nil.mpr none] at others
  obtain ⟨rfl, -⟩ := List.cons.inj ((split_cons word).symm.trans others)
  constructor
  · refine ⟨text.takeWhile isSpace ++ line.takeWhile isSpace, (afterFirst line).takeWhile isSpace,
      (afterFirst (afterFirst line)).takeWhile isSpace, white, ?_, blank_takeWhile _,
      blank_takeWhile _, blank, ?_⟩
    · intro c m
      exact (List.mem_append.mp m).elim (blank_takeWhile _ c) (blank_takeWhile _ c)
    · have second : afterFirst (afterFirst line) =
          (afterFirst (afterFirst line)).takeWhile isSpace ++ trailingText line :=
        List.takeWhile_append_dropWhile.symm
      conv_lhs => rw [stripped, text_parts line, text_parts (afterFirst line), second]
      simp only [List.append_assoc]
  · exact List.takeWhile_prefix _
  · have suffix : trailingText line <:+ line :=
      (List.dropWhile_suffix _).trans ((afterFirst_suffix _).trans (afterFirst_suffix _))
    exact ⟨word, suffix.getLast word ▸ last _⟩

/-- The four ways `parse_command` ends. -/
inductive Parsed (text : List Char) (requestId clientId : Option String) :
    Except LiteStoreError CommandRequest → Prop
  | empty (none : split text = []) (message : String) :
      Parsed text requestId clientId (.error (invalidRequestError message))
  | unknown {verb : List Char} {words : List (List Char)} (h : split text = verb :: words)
      (unnamed : ∀ command : CommandName, String.ofList (upper verb) ≠ command.value)
      (message : String) (context : List (String × String)) :
      Parsed text requestId clientId (.error (unknownCommandError message context))
  | arity {verb : List Char} {words : List (List Char)} (h : split text = verb :: words)
      {command : CommandName} (named : String.ofList (upper verb) = command.value)
      (wrong : ¬ command.TakesWords words.length) (message : String)
      (context : List (String × String)) :
      Parsed text requestId clientId (.error (wrongArityError message context))
  | accepted {verb : List Char} {words : List (List Char)} (h : split text = verb :: words)
      {command : CommandName} (named : String.ofList (upper verb) = command.value)
      (fits : command.TakesWords words.length) :
      Parsed text requestId clientId
        (.ok ⟨command, argumentsOf (strip text) command.value words, requestId, clientId⟩)

theorem parseCommand_parsed (rawCommand : String) (requestId clientId : Option String) :
    Parsed rawCommand.toList requestId clientId (parseCommand rawCommand requestId clientId) := by
  cases h : split rawCommand.toList with
  | nil =>
    rw [parseCommand, if_pos (strip_nil.mpr h)]
    exact .empty h _
  | cons verb words =>
    have line : strip rawCommand.toList ≠ [] := fun none => by simp [strip_nil.mp none] at h
    have parts := splitCommand_words ((split_strip _).trans h)
    by_cases named : ∃ command : CommandName, String.ofList (upper verb) = command.value
    · obtain ⟨command, named⟩ := named
      rw [named] at parts
      obtain ⟨fits, parsed⟩ | ⟨wrong, message, context, parsed⟩ :=
        parseCommand_named requestId clientId line parts
      · rw [takesArgs_argumentsOf] at fits
        exact parsed ▸ .accepted h named fits
      · rw [takesArgs_argumentsOf] at wrong
        exact parsed ▸ .arity h named wrong message context
    · rw [parseCommand_unnamed line parts (not_exists.mp named)]
      exact .unknown h (not_exists.mp named) _ _

/-- An accepted line has as many arguments as its command takes. -/
theorem parseCommand_fits {rawCommand : String} {requestId clientId : Option String}
    {request : CommandRequest} (parsed : parseCommand rawCommand requestId clientId = .ok request) :
    request.Accepted := by
  have outcome := parseCommand_parsed rawCommand requestId clientId
  rw [parsed] at outcome
  cases outcome with
  | accepted h named fits => exact (takesArgs_argumentsOf _ _ _).mpr fits

/-- A line of words that fit a command other than `SET`. -/
theorem parseCommand_words {line verb : List Char} {words : List (List Char)} {command : CommandName}
    (h : split line = verb :: words) (named : String.ofList (upper verb) = command.value)
    (other : command ≠ .SET) (fits : command.TakesWords words.length) (requestId clientId : Option String) :
    parseCommand (String.ofList line) requestId clientId =
      .ok ⟨command, words.map String.ofList, requestId, clientId⟩ := by
  have stripped := (split_strip line).trans h
  have parts := splitCommand_words stripped
  rw [named, argumentsOf_words other, ← String.toList_ofList (l := line)] at parts
  have nonempty : strip (String.ofList line).toList ≠ [] := by
    rw [String.toList_ofList]
    intro none
    rw [strip_nil.mp none] at h
    cases h
  obtain ⟨_, parsed⟩ | ⟨wrong, _⟩ := parseCommand_named requestId clientId nonempty parts
  · exact parsed
  · rw [List.length_map] at wrong
    exact absurd ((CommandName.takesArgs_iff other _).mpr fits) wrong

/-- A line that asks for a deadline of `k`. -/
theorem parseCommand_expire {secondsRaw ending : List Char} (nonempty : secondsRaw ≠ [])
    (dark : ∀ c ∈ secondsRaw, isSpace c = false) (blank : Blank ending) (requestId clientId : Option String) :
    parseCommand (String.ofList ("EXPIRE k ".toList ++ secondsRaw ++ ending)) requestId clientId =
      .ok ⟨.EXPIRE, ["k", String.ofList secondsRaw], requestId, clientId⟩ := by
  have plain {word : List Char} (all : (word.all fun c => !isSpace c) = true) : ∀ c ∈ word, isSpace c = false := by
    simpa using all
  have verb : split ("EXPIRE".toList ++ ' ' :: ("k".toList ++ ' ' :: secondsRaw)) =
      "EXPIRE".toList :: split ("k".toList ++ ' ' :: secondsRaw) := split_word (by decide) (plain (by decide)) _
  have key : split ("k".toList ++ ' ' :: secondsRaw) = "k".toList :: split secondsRaw :=
    split_word (by decide) (plain (by decide)) _
  have words : split ("EXPIRE k ".toList ++ secondsRaw ++ ending) = ["EXPIRE".toList, "k".toList, secondsRaw] := by
    rw [split_append_blank _ blank]
    apply verb.trans
    rw [key, split_single nonempty dark]
  have named : String.ofList (upper "EXPIRE".toList) = CommandName.EXPIRE.value := by decide +kernel
  exact parseCommand_words words named (by decide) rfl requestId clientId

/-- **The grammar.** A text without words is refused as empty, one whose first word names no command
as unknown, one with a wrong number of words for its arity; every other text is accepted, with its
words as arguments. -/
theorem parseCommand_grammar (rawCommand : String) (requestId clientId : Option String) :
    Grammar rawCommand.toList requestId clientId (parseCommand rawCommand requestId clientId) := by
  have only {verb : String} {command other : CommandName} (named : verb = command.value)
      (named' : verb = other.value) : other = command := by
    simpa using congrArg CommandName.ofValue? (named'.symm.trans named)
  have outcome := parseCommand_parsed rawCommand requestId clientId
  generalize parseCommand rawCommand requestId clientId = parsed at outcome ⊢
  cases outcome with
  | empty h message =>
    constructor
    · exact ⟨fun _ => h, fun _ => ⟨message, rfl⟩⟩
    · simp [h, invalidRequestError, unknownCommandError]
    · simp [h]
    · rintro _ ⟨⟩
  | unknown h unnamed message context =>
    constructor
    · simp [h, unknownCommandError, invalidRequestError]
    · exact ⟨fun _ => ⟨_, _, h, unnamed⟩, fun _ => ⟨message, context, rfl⟩⟩
    · rintro _ _ e command named
      obtain ⟨rfl, rfl⟩ := List.cons.inj (h.symm.trans e)
      exact absurd named (unnamed command)
    · rintro _ ⟨⟩
  | arity h named wrong message context =>
    constructor
    · simp [h, wrongArityError, invalidRequestError]
    · simp [h, named, wrongArityError, unknownCommandError]
    · rintro _ _ e other named'
      obtain ⟨rfl, rfl⟩ := List.cons.inj (h.symm.trans e)
      obtain rfl := only named named'
      exact ⟨by simp [wrong], by simp [wrong, wrongArityError]⟩
    · rintro _ ⟨⟩
  | accepted h named fits =>
    rename_i verb words command
    constructor
    · simp [h]
    · simp [h, named]
    · rintro _ _ e other named'
      obtain ⟨rfl, rfl⟩ := List.cons.inj (h.symm.trans e)
      obtain rfl := only named named'
      simp [fits]
    · rintro _ ⟨⟩
      refine ⟨verb, words, h, named, rfl, rfl, fun other => argumentsOf_words other _ words, ?_⟩
      rintro rfl
      match words, fits with
      | key :: third :: more, _ => exact ⟨key, third, more, _, rfl, valueText_trailing h, rfl⟩

end LiteStore
