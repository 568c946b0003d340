/- # Where commands stand in front of expressions

A line that could be read as an expression is a command only in few cases (`Shell.Shadowed`): it is
the name of a command that takes no argument and nothing else, or its first word is the name of
another command and no "=" stands behind it.  In all other cases the expression is evaluated, and so
is every assignment, whatever its target is called.  This is `Shell.evaluates_iff`; what evaluating
comes to in a shell at rest is `Shell.Evaluates.evaluated`.

The shell has its own notion of a word, which includes digits and underscores, and looks at the
whole line with its comment; the scanner reads names of letters, and only what stands in front of
the comment.  The two meet at the front of the line.  There the scanner reads the target of an
assignment and the "=" (`Tree.assignment_starts`), and these characters are a word of the shell
and what follows it. -/
import Abacus.Proofs.Concatenation
import Abacus.Proofs.Layout
import Abacus.Proofs.Prompt

namespace Abacus
set_option autoImplicit false

open Token (Lexeme lexemes)

/-! ## Trimming from the left -/

namespace Text

theorem head?_trimLeft {t : Text} {c : Char} (first : t.trimLeft.head? = some c) :
    isBlank c = false := by
  have plain := head?_dropWhile isBlank t
  rw [← trimLeft, first] at plain
  exact plain

/-- Trimming on both sides takes blanks from the end of what trimming on the left leaves. -/
theorem trimLeft_eq_trim_append (t : Text) :
    ∃ behind, t.trimLeft = t.trim ++ behind ∧ ∀ c ∈ behind, isBlank c := by
  obtain ⟨before, behind, whole, front, back⟩ := t.trim_between
  by_cases empty : t.trim = []
  · refine ⟨[], ?_, nofun⟩
    rw [trim_eq_nil_iff, blank, List.all_eq_true] at empty
    rw [trimLeft, List.dropWhile_eq_nil_iff.mpr empty,
      trim_eq_nil_iff.mpr (List.all_eq_true.mpr empty)]
    rfl
  · refine ⟨behind, ?_, back⟩
    obtain ⟨c, rest, trimmed⟩ := List.exists_cons_of_ne_nil empty
    have plain : isBlank c = false := head?_trimLeft (t := t.trimRight) (by
      rw [← trim, trimmed]
      rfl)
    conv_lhs => rw [whole]
    rw [trimLeft, List.append_assoc, List.dropWhile_append_of_pos front, trimmed, List.cons_append,
      List.dropWhile_cons_of_neg (by simp [plain])]

theorem head?_trim (t : Text) : t.trim.head? = t.trimLeft.head? := by
  obtain ⟨behind, whole, back⟩ := t.trimLeft_eq_trim_append
  by_cases empty : t.trim = []
  · cases behind with
    | nil => rw [whole, List.append_nil]
    | cons c more =>
        have plain : isBlank c = false := head?_trimLeft (t := t) (by rw [whole, empty]; rfl)
        rw [back c List.mem_cons_self] at plain
        cases plain
  · rw [whole, List.head?_append_of_ne_nil _ empty]

/-- What stands at the front of a line in front of its comment, up to a character that is not blank,
stands at the front of the trimmed line. -/
theorem trim_of_uncommented {line front more : Text} {c : Char}
    (start : trimLeft (line.takeWhile (· != '#')) = front ++ c :: more)
    (plain : isBlank c = false) :
    ∃ more, line.trim = front ++ c :: more := by
  have line_eq : line = line.takeWhile (· != '#') ++ line.dropWhile (· != '#') :=
    List.takeWhile_append_dropWhile.symm
  have whole : line.trimLeft = front ++ c :: (more ++ line.dropWhile (· != '#')) := by
    conv_lhs => rw [line_eq]
    have nonempty : ¬ ((line.takeWhile (· != '#')).dropWhile isBlank).isEmpty := by
      rw [← trimLeft, start]
      simp
    rw [trimLeft, List.dropWhile_append, if_neg nonempty, ← trimLeft, start, List.append_assoc,
      List.cons_append]
  obtain ⟨behind, trimmed, back⟩ := line.trimLeft_eq_trim_append
  rw [trimmed] at whole
  have outside : c ∉ behind := fun member => by
    rw [back c member] at plain
    cases plain
  rcases List.append_eq_append_iff.mp whole with ⟨between, -, later⟩ | ⟨between, here, later⟩
  · exact absurd (by rw [later]; simp) outside
  · cases between with
    | nil => exact absurd (by rw [List.nil_append] at later; rw [← later]; simp) outside
    | cons d between =>
        obtain ⟨rfl, -⟩ := List.cons.inj later
        exact ⟨between, here⟩

end Text

/-! ## What is read at the front -/

/-- Neither of the characters that are special to the shell stands in a word. -/
theorem Denotes.not_special {w : Text} {l : Lexeme} (denotes : Denotes w l) :
    ∀ c ∈ w, c ≠ '!' ∧ c ≠ '?' := by
  intro c member
  cases denotes with
  | integer nonempty all =>
      have digit := all c member
      constructor <;> (rintro rfl; cases digit)
  | identifier nonempty all =>
      have letter := all c member
      constructor <;> (rintro rfl; cases letter)
  | symbol s =>
      obtain rfl := List.mem_singleton.mp member
      cases s <;> decide

namespace Scanner

/-- The characters of the first of several lexemes ahead. -/
theorem front_word {s : Scanner} {l : Lexeme} {u : List Lexeme}
    (ahead : lexemes s.ahead.1 = l :: u) (more : u ≠ []) :
    ∃ w later, s.rest.trimLeft = w ++ later ∧ Denotes w l ∧
      rest ⟨s.text, s.tokenStart + w.length⟩ = later ∧
      lexemes (Scanner.ahead ⟨s.text, s.tokenStart + w.length⟩).1 = u := by
  have reading := s.next_reading
  cases found : s.next with
  | error d after =>
      rw [ahead_refused found] at ahead
      cases ahead
  | ok token after =>
      rw [found] at reading
      rw [ahead_read found] at ahead
      cases reading with
      | stop ended =>
          cases ahead
          exact absurd rfl more
      | @word w later l' here denotes apart =>
          rw [@hold_going ⟨l', _, _⟩ denotes.kind_ne, Token.lexemes_cons] at ahead
          obtain ⟨rfl, behind⟩ := List.cons.inj ahead
          refine ⟨w, later, ?_, denotes, @rest_behind ⟨s.text, s.tokenStart⟩ w later here, behind⟩
          rw [← drop_tokenStart, here]

end Scanner

namespace Derives

/-- Every phrase but the rest of a chain has lexemes. -/
theorem ne_nil {p : Phrase} {u : List Lexeme} {t : Tree} (derived : Derives p u t)
    (kind : ∀ level first, p ≠ .rest level first) : u ≠ [] := by
  induction derived with
  | expression _ ih => exact ih nofun
  | assign => exact List.cons_ne_nil _ _
  | additive _ ih => exact ih nofun
  | @chain level _ _ _ _ _ _ ih =>
      refine List.append_ne_nil_of_left_ne_nil (ih fun level' first same => ?_) _
      cases level <;> cases same
  | done => exact absurd rfl (kind _ _)
  | more => exact absurd rfl (kind _ _)
  | sign => exact List.cons_ne_nil _ _
  | atom _ ih => exact ih nofun
  | integer => exact List.cons_ne_nil _ _
  | identifier => exact List.cons_ne_nil _ _
  | parentheses => exact List.cons_ne_nil _ _

/-- A chain of operators is a binary tree, unless there is none. -/
theorem rest_cases {level : Level} {first t : Tree} {v : List Lexeme}
    (derived : Derives (.rest level first) v t) :
    (v = [] ∧ t = first) ∨ ∃ kind left right, t = .binary kind left right := by
  generalize phrase : Phrase.rest level first = p at derived
  induction derived generalizing first with
  | done =>
      cases phrase
      exact .inl ⟨rfl, rfl⟩
  | more operator operand later _ ih =>
      cases phrase
      rcases ih rfl with ⟨-, same⟩ | binary
      · exact .inr ⟨_, _, _, same⟩
      · exact .inr binary
  | _ => cases phrase

/-- A chain that is an assignment is one operand. -/
theorem operand_of_chain {level : Level} {target value : Tree} {u : List Lexeme}
    (derived : Derives (.chain level) u (.assignment target value)) :
    Derives level.operand u (.assignment target value) := by
  cases derived with
  | chain operand later =>
      rcases rest_cases later with ⟨rfl, rfl⟩ | ⟨kind, left, right, same⟩
      · rw [List.append_nil]
        exact operand
      · cases same

/-- An assignment starts with its target and "=", or it stands in parentheses. -/
theorem assignment_front {target value : Tree} {u : List Lexeme}
    (derived : Derives .expression u (.assignment target value)) :
    (∃ name later, u = .identifier name :: .symbol .assign :: later) ∨
    ∃ later, u = .symbol .openParen :: later := by
  cases derived with
  | expression whole =>
      cases whole with
      | assign value => exact .inl ⟨_, _, rfl⟩
      | additive chain =>
          have unary : Derives .unary u (.assignment target value) :=
            @operand_of_chain .multiplicative _ _ _ (operand_of_chain chain)
          cases unary with
          | atom atom =>
              cases atom with
              | parentheses inner => exact .inr ⟨_, rfl⟩

end Derives

/-- A text that is parsed starts with a word. -/
theorem Tree.parsed_front {depth : Nat} {text : Text} {t : Tree}
    (parsed : parse depth text = .ok t) :
    ∃ w l later, text.trimLeft = w ++ later ∧ Denotes w l := by
  obtain ⟨found, stop, tokens, -, derived⟩ := derives_of_parse parsed
  obtain ⟨l, u, same⟩ := List.exists_cons_of_ne_nil (derived.ne_nil nofun)
  have ahead : lexemes (Scanner.ahead ⟨text, 0⟩).1 = l :: (u ++ [stop.lexeme]) := by
    rw [← Scanner.tokens_eq_ahead, tokens, Token.lexemes_append, same]
    rfl
  obtain ⟨w, later, front, denotes, -⟩ := Scanner.front_word ahead (by simp)
  exact ⟨w, l, later, front, denotes⟩

theorem Tree.not_blank_of_parse {depth : Nat} {text : Text} {t : Tree}
    (parsed : parse depth text = .ok t) : text.blank = false := by
  obtain ⟨w, l, later, front, denotes⟩ := parsed_front parsed
  by_contra blank
  rw [Bool.not_eq_false, Text.blank, List.all_eq_true] at blank
  rw [Text.trimLeft, List.dropWhile_eq_nil_iff.mpr blank] at front
  exact denotes.ne_nil (List.append_eq_nil_iff.mp front.symm).1

/-- A line that is parsed as an assignment starts with a name in front of "=" or with a
parenthesis. -/
theorem Tree.assignment_starts {depth : Nat} {text : Text} {target value : Tree}
    (parsed : parse depth text = .ok (.assignment target value)) :
    (∃ name gap later, text.trimLeft = name ++ (gap ++ '=' :: later) ∧ (∀ c ∈ name, c.isAlpha) ∧
      ∀ c ∈ gap, Text.isBlank c) ∨
    ∃ later, text.trimLeft = '(' :: later := by
  obtain ⟨found, stop, tokens, -, derived⟩ := derives_of_parse parsed
  have ahead : lexemes (Scanner.ahead ⟨text, 0⟩).1 = lexemes found ++ [stop.lexeme] := by
    rw [← Scanner.tokens_eq_ahead, tokens, Token.lexemes_append]
    rfl
  have rest : Scanner.rest ⟨text, 0⟩ = text := rfl
  rcases derived.assignment_front with ⟨name, u, same⟩ | ⟨u, same⟩
  · rw [same, List.cons_append] at ahead
    obtain ⟨w, later, front, denotes, behind, ahead'⟩ := Scanner.front_word ahead (by simp)
    obtain ⟨w', later', front', denotes', -⟩ := Scanner.front_word ahead' (by simp)
    rw [rest] at front
    rw [behind] at front'
    cases denotes with
    | identifier nonempty all =>
        cases denotes' with
        | symbol =>
            have split : later.takeWhile Text.isBlank ++ later.trimLeft = later :=
              List.takeWhile_append_dropWhile
            rw [front'] at split
            refine .inl ⟨name, later.takeWhile Text.isBlank, later', ?_, all,
              fun c member => List.mem_takeWhile_imp member⟩
            rw [front]
            exact congrArg (name ++ ·) split.symm
  · rw [same, List.cons_append] at ahead
    obtain ⟨w, later, front, denotes, -⟩ := Scanner.front_word ahead (by simp)
    cases denotes with
    | symbol => exact .inr ⟨later, front⟩

/-! ## Requests -/

namespace Shell

/-- The first word of a line names a command that takes the line, though the line could be read as
an expression. -/
def Shadowed (line : Text) : Prop :=
  line.trim ∈ ["vars".toList, "reset".toList, "exit".toList, "EOF".toList] ∨
  line.trim.takeWhile isWordChar ∈ ["help".toList, "tokens".toList, "ast".toList] ∧
    (Text.trimLeft (line.trim.dropWhile isWordChar)).head? ≠ some '='

/-- The answer to a line that was counted and evaluated. -/
def counted (s : Shell) : EStateM.Result Failure Desk Unit → EStateM.Result Failure Shell Reply
  | .ok _ desk => .ok .nothing ⟨desk, [], s.lineNumber + 1, "> ".toList⟩
  | .error e desk => .error e ⟨desk, [], s.lineNumber + 1, "> ".toList⟩

/-- The shell evaluates a tree for a line: it queues a text with this tree, evaluates and prints it,
and counts the line. -/
def Evaluates (cfg : Settings) (s : Shell) (line : Text) (t : Tree) : Prop :=
  ∃ text, Tree.parse cfg.depth text = .ok t ∧
    answer cfg line s = s.counted (evaluateLine cfg text (s.lineNumber + 1 : Nat) s.desk)

/-- In a shell at rest, where nothing is logged, evaluating ends as the tree has it: with its value
printed and the variables that it leaves, or with a report. -/
theorem Evaluates.evaluated {cfg : Settings} {s : Shell} {line : Text} {t : Tree}
    (evaluates : Evaluates cfg s line t) (silent : cfg.debug = false) {paint : Text → Text}
    {out : Text} {env : Environment} (rest : s.AtRest paint out env) :
    ∃ text r, Tree.parse cfg.depth text = .ok t ∧
      Evaluated cfg.depth ⟨text, (s.lineNumber + 1 : Nat)⟩ paint out env r ∧
      answer cfg line s = s.counted r := by
  obtain ⟨depth, debug⟩ := cfg
  obtain rfl : debug = false := silent
  obtain ⟨text, parsed, answered⟩ := evaluates
  have written : text ≠ [] := by
    rintro rfl
    obtain ⟨e, failed⟩ := Tree.parse_nil depth
    rw [parsed] at failed
    cases failed
  rw [rest] at answered
  exact ⟨text, _, parsed, evaluateLine_typed depth ⟨text, _⟩ written paint out env, answered⟩

theorem Command.ofName?_eq_some_iff {name : Text} {c : Command} :
    ofName? name = some c ↔ c.name = name := by
  constructor
  · exact name_of_ofName?
  · rintro rfl
    cases c <;> rfl

/-- Commands that take no argument have to stand alone, and the others must not stand in front of
"=". -/
theorem shadowed_iff {line : Text} : Shadowed line ↔
    ∃ c : Command, c.name = line.trim.takeWhile isWordChar ∧
      if c.bare then line.trim.dropWhile isWordChar = []
      else (Text.trimLeft (line.trim.dropWhile isWordChar)).head? ≠ some '=' := by
  have alone : ∀ c : Command, line.trim = c.name ↔ c.name = line.trim.takeWhile isWordChar ∧
      line.trim.dropWhile isWordChar = [] := by
    intro c
    constructor
    · intro same
      rw [same]
      cases c <;> exact ⟨rfl, rfl⟩
    · rintro ⟨name, empty⟩
      have whole := List.takeWhile_append_dropWhile (p := isWordChar) (l := line.trim)
      rw [← name, empty, List.append_nil] at whole
      exact whole.symm
  simp only [Shadowed, List.mem_cons, List.not_mem_nil, or_false]
  constructor
  · rintro ((same | same | same | same) | ⟨same | same | same, apart⟩)
    · exact ⟨.vars, (alone .vars).mp same⟩
    · exact ⟨.reset, (alone .reset).mp same⟩
    · exact ⟨.exit, (alone .exit).mp same⟩
    · exact ⟨.endOfInput, (alone .endOfInput).mp same⟩
    · exact ⟨.help, same.symm, apart⟩
    · exact ⟨.tokens, same.symm, apart⟩
    · exact ⟨.ast, same.symm, apart⟩
  · rintro ⟨c, stands⟩
    cases c with
    | vars => exact .inl (.inl ((alone .vars).mpr stands))
    | reset => exact .inl (.inr (.inl ((alone .reset).mpr stands)))
    | exit => exact .inl (.inr (.inr (.inl ((alone .exit).mpr stands))))
    | endOfInput => exact .inl (.inr (.inr (.inr ((alone .endOfInput).mpr stands))))
    | help => exact .inr ⟨.inl stands.1.symm, stands.2⟩
    | tokens => exact .inr ⟨.inr (.inl stands.1.symm), stands.2⟩
    | ast => exact .inr ⟨.inr (.inr stands.1.symm), stands.2⟩

/-- What a line asks for that starts with neither of the two special characters. -/
theorem request_eq {line rest : Text} {first : Char} (whole : line.trim = first :: rest)
    (bang : first ≠ '!') (question : first ≠ '?') :
    request line =
      if (Text.trim (line.trim.dropWhile isWordChar)).head? = some '=' then .expression line
      else
        match Command.ofName? (line.trim.takeWhile isWordChar) with
        | none => .expression line.trim
        | some c =>
          if c.bare && !(Text.trim (line.trim.dropWhile isWordChar)).isEmpty then .expression line
          else .command c (Text.trim (line.trim.dropWhile isWordChar)) := by
  unfold request
  split
  · rename_i empty
    rw [empty] at whole
    cases whole
  · rename_i special
    rw [special] at whole
    exact absurd (List.cons.inj whole).1.symm bang
  · rename_i first' rest' _ same
    obtain ⟨rfl, rfl⟩ := List.cons.inj (same.symm.trans whole)
    dsimp only
    rw [if_neg question, ← same, commandOf?]
    cases Command.ofName? (line.trim.takeWhile isWordChar) <;> rfl

/-- Nothing but blanks behind the first word of a trimmed line is nothing at all. -/
theorem behind_word_eq_nil {line : Text} :
    Text.trim (line.trim.dropWhile isWordChar) = [] ↔ line.trim.dropWhile isWordChar = [] := by
  constructor
  · intro empty
    by_contra nonempty
    have plain := Text.not_blank_of_trim
      (List.takeWhile_append_dropWhile (p := isWordChar) (l := line.trim)).symm nonempty
    rw [Text.trim_eq_nil_iff.mp empty] at plain
    cases plain
  · intro empty
    rw [empty]
    rfl

section Requests

variable {line rest : Text} {first : Char} (whole : line.trim = first :: rest)
  (bang : first ≠ '!') (question : first ≠ '?')

include whole bang question

theorem request_shadowed (shadowed : Shadowed line) :
    ∃ c argument, request line = .command c argument ∧
      c.name = line.trim.takeWhile isWordChar := by
  obtain ⟨c, name, stands⟩ := shadowed_iff.mp shadowed
  rw [request_eq whole bang question, Command.ofName?_eq_some_iff.mpr name, Text.head?_trim]
  by_cases bare : c.bare
  · rw [if_pos bare] at stands
    rw [stands]
    exact ⟨c, [], by simp [Text.trimLeft, Text.trim, Text.trimRight], name⟩
  · rw [if_neg bare] at stands
    rw [if_neg stands]
    exact ⟨c, Text.trim (line.trim.dropWhile isWordChar), by simp [bare], name⟩

theorem request_plain (plain : ¬ Shadowed line) :
    ∃ text, request line = .expression text ∧ (text = line ∨ text = line.trim) := by
  rw [request_eq whole bang question, Text.head?_trim]
  split
  · exact ⟨line, rfl, .inl rfl⟩
  · rename_i apart
    split
    · exact ⟨line.trim, rfl, .inr rfl⟩
    · rename_i c found
      have name := Command.ofName?_eq_some_iff.mp found
      split
      · exact ⟨line, rfl, .inl rfl⟩
      · rename_i alone
        refine absurd (shadowed_iff.mpr ⟨c, name, ?_⟩) plain
        split
        · rename_i bare
          rw [← behind_word_eq_nil]
          simpa [bare] using alone
        · exact apart

end Requests

/-! ## Lines that are parsed -/

section Parsed

variable {cfg : Settings} {line : Text} {t : Tree}
  (parsed : Tree.parse cfg.depth (line.takeWhile (· != '#')) = .ok t)

include parsed

/-- The first character of a line that is parsed is none of the special ones. -/
theorem parsed_start : ∃ first rest, line.trim = first :: rest ∧ first ≠ '!' ∧ first ≠ '?' := by
  obtain ⟨w, l, later, front, denotes⟩ := Tree.parsed_front parsed
  obtain ⟨c, more, rfl⟩ := List.exists_cons_of_ne_nil denotes.ne_nil
  have member : c ∈ c :: more := List.mem_cons_self
  obtain ⟨rest, whole⟩ := @Text.trim_of_uncommented line [] (more ++ later) c front
    (denotes.plain c member)
  exact ⟨c, rest, whole, denotes.not_special c member⟩

/-- A line that is taken for an expression is evaluated. -/
theorem evaluates_of_request {s : Shell} (free : s.pending = []) {text : Text}
    (asked : request line = .expression text) (same : text = line ∨ text = line.trim) :
    Evaluates cfg s line t := by
  have words : Text.words (Script.clean text) = Text.words (line.takeWhile (· != '#')) := by
    rw [Script.words_clean]
    rcases same with rfl | rfl
    · rfl
    · exact Text.words_trim_comment line
  have parsed' := Tree.parse_of_words words.symm parsed
  have logical : s.logical text = Script.clean text := by
    rw [Shell.logical, free]
    rfl
  have written : (Script.clean text).blank = false := by
    rw [Text.blank_of_words words, Tree.not_blank_of_parse parsed]
  have completes : s.completes line = some (Script.clean text) := by
    rw [Shell.completes, asked]
    dsimp only
    rw [logical, Tree.parse_closed parsed', written]
    rfl
  refine ⟨_, parsed', (answer_completes cfg completes).2.trans ?_⟩
  cases evaluateLine cfg (Script.clean text) (s.lineNumber + 1 : Nat) s.desk <;> rfl

end Parsed

theorem not_isWordChar_of_isBlank {c : Char} (blank : Text.isBlank c) : isWordChar c = false := by
  obtain ⟨digit, letter⟩ := Text.plain_of_isBlank blank
  have underscore : c ≠ '_' := by
    rintro rfl
    cases blank
  simp [isWordChar, Char.isAlphanum, digit, letter, underscore]

/-- A line that is parsed as an assignment is never taken for a command: a name in front of "=" is
its first word, and behind a parenthesis there is none. -/
theorem not_shadowed_of_assignment {depth : Nat} {line : Text} {target value : Tree}
    (parsed : Tree.parse depth (line.takeWhile (· != '#')) = .ok (.assignment target value)) :
    ¬ Shadowed line := by
  rw [shadowed_iff]
  rintro ⟨c, name, stands⟩
  rcases Tree.assignment_starts parsed with
    ⟨word, gap, later, front, letters, blank⟩ | ⟨later, front⟩
  · rw [← List.append_assoc] at front
    obtain ⟨more, whole⟩ := Text.trim_of_uncommented front rfl
    have inWord : ∀ x ∈ word, isWordChar x := by
      intro x member
      simp [isWordChar, Char.isAlphanum, letters x member]
    have behind : line.trim.dropWhile isWordChar = gap ++ '=' :: more := by
      rw [whole, List.append_assoc, List.dropWhile_append_of_pos inWord]
      cases gap with
      | nil => rfl
      | cons x gap =>
          have outside := not_isWordChar_of_isBlank (blank x List.mem_cons_self)
          exact List.dropWhile_cons_of_neg (by simp [outside])
    rw [behind] at stands
    split at stands
    · simp at stands
    · refine stands ?_
      rw [Text.trimLeft, List.dropWhile_append_of_pos blank]
      rfl
  · obtain ⟨more, whole⟩ := @Text.trim_of_uncommented line [] later '(' front rfl
    rw [whole] at name
    cases c <;> cases name

/-- A command leaves the count of lines alone. -/
theorem left_command_eq (cfg : Settings) (c : Command) (argument : Text) (s : Shell) :
    ∃ desk, left (command cfg c argument s) = { s with desk } := by
  cases c with
  | exit => exact ⟨s.desk, rfl⟩
  | vars => exact ⟨_, left_onDesk _ _ _⟩
  | reset => exact ⟨_, left_onDesk _ _ _⟩
  | tokens => exact ⟨_, left_onDesk _ _ _⟩
  | ast => exact ⟨_, left_onDesk _ _ _⟩
  | help => exact ⟨_, left_onDesk _ _ _⟩
  | endOfInput => exact ⟨_, left_onDesk _ _ _⟩

theorem Evaluates.counts {cfg : Settings} {s : Shell} {line : Text} {t : Tree}
    (evaluates : Evaluates cfg s line t) :
    (left (answer cfg line s)).lineNumber = s.lineNumber + 1 := by
  obtain ⟨text, -, answered⟩ := evaluates
  rw [answered]
  cases evaluateLine cfg text (s.lineNumber + 1 : Nat) s.desk <;> rfl

/-- Take a shell for which no line waits, and a line that is parsed as an expression, its comment
left out.  The shell evaluates the expression unless a command shadows it, and then it carries out
the command that the first word names.  Assignments are always evaluated.  Evaluating comes to what
the tree comes to from the variables that the shell has. -/
theorem evaluates_iff (cfg : Settings) (s : Shell) (line : Text) (t : Tree) (free : s.pending = [])
    (parsed : Tree.parse cfg.depth (line.takeWhile (· != '#')) = .ok t) :
    (Evaluates cfg s line t ↔ ¬ Shadowed line) ∧
    (Shadowed line → ∃ c argument, c.name = line.trim.takeWhile isWordChar ∧
      answer cfg line s = command cfg c argument s) ∧
    ((∃ target value, t = .assignment target value) → Evaluates cfg s line t) ∧
    ∀ paint out env, cfg.debug = false → s.AtRest paint out env → Evaluates cfg s line t →
      ∃ text r, Tree.parse cfg.depth text = .ok t ∧
        Evaluated cfg.depth ⟨text, (s.lineNumber + 1 : Nat)⟩ paint out env r ∧
        answer cfg line s = s.counted r := by
  obtain ⟨first, rest, whole, bang, question⟩ := parsed_start parsed
  have evaluated : ¬ Shadowed line → Evaluates cfg s line t := by
    intro plain
    obtain ⟨text, asked, same⟩ := request_plain whole bang question plain
    exact evaluates_of_request parsed free asked same
  have carried : Shadowed line → ∃ c argument, c.name = line.trim.takeWhile isWordChar ∧
      answer cfg line s = command cfg c argument s := by
    intro shadowed
    obtain ⟨c, argument, asked, name⟩ := request_shadowed whole bang question shadowed
    refine ⟨c, argument, name, ?_⟩
    rw [answer, asked]
  refine ⟨⟨fun evaluates shadowed => ?_, evaluated⟩, carried, ?_,
    fun paint out env silent rest evaluates => evaluates.evaluated silent rest⟩
  · obtain ⟨c, argument, -, answered⟩ := carried shadowed
    obtain ⟨desk, left⟩ := left_command_eq cfg c argument s
    have counted := evaluates.counts
    rw [answered, left] at counted
    exact Nat.succ_ne_self _ counted.symm
  · rintro ⟨target, value, rfl⟩
    exact evaluated (not_shadowed_of_assignment parsed)

/-- A name that is also a command: alone it is the command, in front of "=" or of a comment it is
not. -/
theorem evaluates_iff_vars :
    let t : Tree := .assignment (.reference "help".toList) (.reference "vars".toList)
    Evaluates ⟨20, true⟩ (fresh id) " help\t= vars # = 3".toList t ∧
    Evaluates ⟨20, true⟩ (fresh id) "vars # all".toList (.reference "vars".toList) ∧
    ¬ Evaluates ⟨20, true⟩ (fresh id) " vars ".toList (.reference "vars".toList) := by
  intro t
  have assigned := evaluates_iff ⟨20, true⟩ (fresh id) " help\t= vars # = 3".toList t rfl
    (by decide +kernel)
  have commented := evaluates_iff ⟨20, true⟩ (fresh id) "vars # all".toList
    (.reference "vars".toList) rfl (by decide +kernel)
  have alone := evaluates_iff ⟨20, true⟩ (fresh id) " vars ".toList (.reference "vars".toList) rfl
    (by decide +kernel)
  refine ⟨assigned.2.2.1 ⟨_, _, rfl⟩, commented.1.mpr ?_, fun evaluates => alone.1.mp evaluates ?_⟩
  · unfold Shadowed
    decide
  · unfold Shadowed
    decide

end Shell
end Abacus
