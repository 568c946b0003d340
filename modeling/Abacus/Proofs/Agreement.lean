/- # Files and the shell agree

The same lines come to the same in a file that is run and typed into a shell: the file is loaded
and run to its end exactly if the shell answers all lines without a report or a failure and waits
for none in the end, and then both print the same values and leave the same variables.  This is
`Shell.accepts_iff_finishes`.

Both sides are told by one function of the logical lines, `Script.answers?`: what they come to one
after the other if all goes well.  A file parses all of them before it evaluates the first, and the
shell evaluates each as soon as it is complete (`Session.finishes_answers`,
`Shell.accepts_answers`); where all goes well this makes no difference.  Neither do the texts that
the two put together, which differ in blanks: the shell joins what was typed to the line that waits
and then cleans both, a file is cleaned line by line.  They have the same words
(`Shell.Awaits.logical_words`), and so they are parsed to the same trees.

A line that waits at the end of a file is parsed like any other, but never with success, since it
leaves parentheses open.

Reports are told from values by what is printed.  How paint comes out is not known, but it keeps the
text that is painted (`Text.Keeps`).  So every report holds the word "error", whose "r" is in no
number. -/
import Abacus.Proofs.Conversation
import Abacus.Proofs.Layout

namespace Abacus
set_option autoImplicit false

/-! ## What texts come to if all goes well -/

/-- What a text comes to if it is parsed, shown and evaluated and its value is written: the value,
what is written, and the variables that are left. -/
def Tree.answer? (depth : Nat) (env : Environment) (text : Text) :
    Option (Number × Text × Environment) :=
  match parse depth text with
  | .error _ => none
  | .ok t =>
    match t.display depth 0, t.evaluate depth env with
    | .ok _, .ok value after =>
      match value.text with
      | .ok written => some (value, written, after)
      | .error _ => none
    | _, _ => none

/-- What texts come to one after the other, if all goes well. -/
def Script.answers? (depth : Nat) : Environment → List Text →
    Option (List Number × List Text × Environment)
  | env, [] => some ([], [], env)
  | env, text :: rest =>
    match Tree.answer? depth env text with
    | none => none
    | some (value, written, after) =>
      match answers? depth after rest with
      | none => none
      | some (values, more, last) => some (value :: values, written :: more, last)

namespace Tree

variable {depth : Nat} {text : Text} {env : Environment}

theorem answer?_unparsed {e : Failure} (parsed : parse depth text = .error e) :
    answer? depth env text = none := by
  simp only [answer?, parsed]

theorem answer?_parsed {t : Tree} (parsed : parse depth text = .ok t) :
    answer? depth env text =
      match t.display depth 0, t.evaluate depth env with
      | .ok _, .ok value after =>
          match value.text with
          | .ok written => some (value, written, after)
          | .error _ => none
      | _, _ => none := by
  simp only [answer?, parsed]

theorem answer?_written {value : Number} {written : Text} {after : Environment}
    (found : answer? depth env text = some (value, written, after)) : value.text = .ok written := by
  unfold answer? at found
  split at found
  · cases found
  · split at found
    · split at found
      · rename_i text
        cases found
        exact text
      · cases found
    · cases found

/-- Texts with the same words come to the same. -/
theorem answer?_of_words {text' : Text} (same : text.words = text'.words) :
    answer? depth env text = answer? depth env text' := by
  cases parsed : parse depth text with
  | ok t => rw [answer?_parsed parsed, answer?_parsed (parse_of_words same parsed)]
  | error e =>
      cases parsed' : parse depth text' with
      | error e' => rw [answer?_unparsed parsed, answer?_unparsed parsed']
      | ok t =>
          rw [parse_of_words same.symm parsed'] at parsed
          cases parsed

/-- A text that leaves parentheses open comes to nothing. -/
theorem answer?_unclosed (more : Script.unclosed text) : answer? depth env text = none := by
  cases parsed : parse depth text with
  | error e => exact answer?_unparsed parsed
  | ok t =>
      rw [parse_closed parsed] at more
      cases more

end Tree

theorem Text.printed_cons (shown : Text) (more : List Text) :
    printed (shown :: more) = shown.line ++ printed more := by
  rw [printed, List.map_cons, List.flatten_cons]
  rfl

/-! ## What is written of a number -/

theorem Text.ofNat_plain (n : Nat) : 'r' ∉ Text.ofNat n := by
  intro member
  cases Text.ofNat_digits n _ member

namespace Double

theorem notate_plain {digits : Text} (plain : 'r' ∉ digits) (e : Int) :
    'r' ∉ notate digits e := by
  have taken : ∀ n, 'r' ∉ digits.take n := fun n member => plain (List.mem_of_mem_take member)
  have dropped : ∀ n, 'r' ∉ digits.drop n := fun n member => plain (List.mem_of_mem_drop member)
  have exponent : 'r' ∉ exponentText e := by
    unfold exponentText
    split <;> simp [Text.ofNat_plain]
  unfold notate
  split
  · split <;> simp [taken, dropped, exponent, -List.drop_one]
  · split
    · simp [Text.copies, plain]
    · dsimp only
      split <;> simp [taken, dropped]

theorem text_plain (x : Double) : 'r' ∉ x.text := by
  have magnitude : ∀ rank, 'r' ∉ magnitudeText rank := by
    intro rank
    refine notate_plain (fun member => ?_) _
    have kept := (List.rdropWhile_prefix (· == '0') _).subset member
    exact Text.ofNat_plain _ kept
  cases x with
  | nan => decide
  | infinite negative => cases negative <;> decide
  | finite negative rank small =>
      rw [text]
      split <;> split <;> simp [magnitude]

end Double

theorem Number.text_plain {x : Number} {t : Text} (written : x.text = .ok t) : 'r' ∉ t := by
  unfold text text? at written
  cases x with
  | float x =>
      cases written
      exact x.text_plain
  | int i =>
      dsimp only at written
      by_cases short : writable i
      · rw [if_pos short] at written
        cases written
        cases i with
        | ofNat n => exact Text.ofNat_plain n
        | negSucc n => simp [Text.ofInt, Text.ofNat_plain]
      · rw [if_neg short] at written
        cases written

namespace Script

/-- What is shown are the values, written. -/
theorem answers?_written {depth : Nat} {env last : Environment} {texts shown : List Text}
    {values : List Number} (found : answers? depth env texts = some (values, shown, last)) :
    List.Forall₂ (fun value written => Number.text value = .ok written) values shown := by
  induction texts generalizing env values shown with
  | nil =>
      cases found
      exact .nil
  | cons text rest ih =>
      rw [answers?] at found
      split at found
      · cases found
      · rename_i value written after first
        split at found
        · cases found
        · rename_i later
          cases found
          exact .cons (Tree.answer?_written first) (ih later)

theorem answers?_plain {depth : Nat} {env last : Environment} {texts shown : List Text}
    {values : List Number} (found : answers? depth env texts = some (values, shown, last)) :
    'r' ∉ Text.printed shown := by
  have written := answers?_written found
  clear found
  induction written with
  | nil => simp [Text.printed]
  | cons first later ih =>
      rw [Text.printed_cons, List.mem_append, not_or]
      refine ⟨?_, ih⟩
      simp [Text.line, Number.text_plain first]

end Script

/-! ## A file -/

/-- An entry for a logical line that was parsed and shown. -/
def Script.Queues (depth : Nat) (line : LogicalLine) (entry : Int × (Text × Tree)) : Prop :=
  Script.Loads depth line entry ∧ ∃ shown, entry.2.2.display depth 0 = .ok shown

/-- All lines are queued, or one of them keeps them from coming to anything. -/
theorem Session.addLines_cases (depth : Nat) (lines : List LogicalLine)
    (sorted : lines.Pairwise fun first second => first.number < second.number) (d : Desk)
    (fresh : ∀ l ∈ lines, ∀ key ∈ d.session.queue.keys, key < l.number) :
    (∃ entries final, List.Forall₂ (Script.Queues depth) lines entries ∧
      addLines ⟨depth, false⟩ lines d = .ok () final ∧
      final.session = { d.session with queue := ⟨d.session.queue.entries ++ entries⟩ } ∧
      final.console.out = d.console.out) ∨
    ((∃ e final, addLines ⟨depth, false⟩ lines d = .error e final) ∧
      ∀ env, Script.answers? depth env (lines.map (·.text)) = none) := by
  induction lines generalizing d with
  | nil =>
      refine .inl ⟨[], d, .nil, rfl, ?_, rfl⟩
      rw [List.append_nil]
  | cons line rest ih =>
      rw [addLines_cons, Desk.add_eq]
      cases parsed : Tree.parse depth line.text with
      | error e =>
          refine .inr ⟨⟨e, _, rfl⟩, fun env => ?_⟩
          simp only [List.map_cons, Script.answers?, Tree.answer?_unparsed parsed]
      | ok t =>
          dsimp only
          cases display : t.display depth 0 with
          | error e =>
              refine .inr ⟨⟨e, _, rfl⟩, fun env => ?_⟩
              simp only [List.map_cons, Script.answers?, Tree.answer?_parsed parsed, display]
          | ok shown =>
              obtain ⟨queued, later⟩ := insert_below sorted fresh (line.text, t)
              dsimp only
              rcases ih (List.pairwise_cons.mp sorted).2 (Desk.mark ⟨d.console, { d.session with
                  queue := d.session.queue.insert line.number (line.text, t) }⟩ {}) later with
                ⟨entries, final, loads, added, session, out⟩ | ⟨failed, never⟩
              · refine .inl ⟨(line.number, line.text, t) :: entries, final,
                  .cons ⟨⟨rfl, rfl, parsed⟩, shown, display⟩ loads, added, ?_, out⟩
                rw [session, Desk.mark_session, queued]
                simp only [List.append_assoc, List.singleton_append]
              · refine .inr ⟨failed, fun env => ?_⟩
                rw [List.map_cons, Script.answers?]
                cases Tree.answer? depth env line.text with
                | none => rfl
                | some found => simp only [never]

/-- The queued lines are evaluated and printed as far as they come to something. -/
theorem Desk.runEntries_answers {depth : Nat} {lines : List LogicalLine}
    {entries : List (Int × (Text × Tree))}
    (queued : List.Forall₂ (Script.Queues depth) lines entries) (d : Desk)
    (echo : d.session.echo) :
    match Script.answers? depth d.session.environment (lines.map (·.text)) with
    | some (values, shown, last) => ∃ final,
        runEntries ⟨depth, false⟩ entries d = .ok () final ∧
        final.console.out = d.console.out ++ Text.printed shown ∧
        final.session.environment = last ∧ final.session.results = d.session.results ++ values
    | none => ∃ e final, runEntries ⟨depth, false⟩ entries d = .error e final := by
  induction queued generalizing d with
  | nil =>
      refine ⟨d, rfl, ?_, rfl, ?_⟩
      · rw [Text.printed, List.map_nil, List.flatten_nil, List.append_nil]
      · rw [List.append_nil]
  | @cons line entry lines entries load loads ih =>
      obtain ⟨number, text, t⟩ := entry
      obtain ⟨⟨rfl, rfl, parsed⟩, tree, display⟩ := load
      rw [runEntries_cons, runEntry_eq, List.map_cons, Script.answers?, Tree.answer?_parsed parsed]
      dsimp only at display
      rw [display]
      cases t.evaluate depth d.session.environment with
      | error e after => exact ⟨e, _, rfl⟩
      | ok value after =>
          dsimp only
          rw [if_pos echo]
          cases value.text with
          | error e => exact ⟨e, _, rfl⟩
          | ok written =>
              dsimp only
              let marked := d.mark ⟨some line.text, some line.number⟩
              let kept := (marked.drop line.number after).keep value
              have later := ih (mark { kept with console := kept.console.print written } {}) echo
              have known : (mark { kept with console := kept.console.print written }
                  {}).session.environment = after := rfl
              rw [known] at later
              cases found : Script.answers? depth after (lines.map (·.text)) with
              | none =>
                  rw [found] at later
                  exact later
              | some rest =>
                  rw [found] at later
                  obtain ⟨final, ran, out, env, results⟩ := later
                  refine ⟨final, ran, ?_, env, ?_⟩
                  · rw [out, Text.printed_cons, ← List.append_assoc]
                    rfl
                  · rw [results, ← List.singleton_append, ← List.append_assoc]
                    rfl

namespace Session

/-- A session with results printed loads a file and finishes its run at a desk. -/
def Finishes (cfg : Settings) (paint : Text → Text) (read : FileReader) (path : Text)
    (interactive : Bool) (d : Desk) : Prop :=
  ∃ session c, start cfg read path interactive true (.opened paint) = .ok session c ∧
    Desk.run cfg ⟨c, session⟩ = .ok () d

theorem Finishes.unique {cfg : Settings} {paint : Text → Text} {read : FileReader} {path : Text}
    {interactive : Bool} {d d' : Desk} (first : Finishes cfg paint read path interactive d)
    (second : Finishes cfg paint read path interactive d') : d = d' := by
  obtain ⟨session, c, started, ran⟩ := first
  obtain ⟨session', c', started', ran'⟩ := second
  rw [started] at started'
  cases started'
  rw [ran] at ran'
  cases ran'
  rfl

theorem start_readable {depth : Nat} {paint : Text → Text} {read : FileReader} {path text : Text}
    (named : path ≠ typedPath) (readable : readFile read path = .ok text) (interactive : Bool) :
    ∃ opened : Console, opened.out = [] ∧
      start ⟨depth, false⟩ read path interactive true (.opened paint) =
        match addLines ⟨depth, false⟩ (Script.ofLines text.lines)
            ⟨opened, { path, echo := true }⟩ with
        | .ok _ d => .ok d.session d.console
        | .error e d => .error e d.console := by
  have loads : load ⟨depth, false⟩ read path interactive =
      addLines ⟨depth, false⟩ (Script.ofLines text.lines) := by
    simp only [load, if_neg named, readable]
  have opens : ∃ opened : Console, opened.out = [] ∧
      start ⟨depth, false⟩ read path interactive true (.opened paint) =
        match load ⟨depth, false⟩ read path interactive ⟨opened, { path, echo := true }⟩ with
        | .ok _ d => .ok d.session d.console
        | .error e d => .error e d.console :=
    ⟨{ reporter :=
        if interactive then { Reporter.clearLine { paint } path with fatal := false }
        else Reporter.clearLine { paint } path }, rfl, rfl⟩
  rw [loads] at opens
  exact opens

/-- A file finishes exactly if its logical lines come to something, and then with this. -/
theorem finishes_answers {depth : Nat} {paint : Text → Text} {read : FileReader}
    {path text : Text} (named : path ≠ typedPath) (readable : readFile read path = .ok text)
    (interactive : Bool) :
    match Script.answers? depth .empty (Script.texts none text.lines) with
    | some (values, shown, last) => ∃ d, Finishes ⟨depth, false⟩ paint read path interactive d ∧
        d.console.out = Text.printed shown ∧ d.session.environment = last ∧
        d.session.results = values
    | none => ∀ d, ¬ Finishes ⟨depth, false⟩ paint read path interactive d := by
  obtain ⟨opened, empty, started⟩ := @start_readable depth paint _ _ _ named readable interactive
  rw [← Script.texts_ofLines]
  rcases addLines_cases depth (Script.ofLines text.lines) (Script.ofLines_ordered text.lines).1
      ⟨opened, { path, echo := true }⟩ (by simp [OrderedMap.keys, OrderedMap.empty]) with
    ⟨entries, loaded, queued, added, session, out⟩ | ⟨⟨e, final, failed⟩, unanswered⟩
  · rw [added] at started
    have ran := Desk.runEntries_answers queued loaded (by rw [session])
    have known : loaded.session.environment = .empty := by rw [session]
    have fresh : loaded.session.results = [] := by rw [session]
    have run : Desk.run ⟨depth, false⟩ ⟨loaded.console, loaded.session⟩ =
        Desk.runEntries ⟨depth, false⟩ entries loaded := by
      have entries' : loaded.session.queue.entries = entries := by rw [session]; rfl
      rw [← entries']
      rfl
    rw [known] at ran
    cases found : Script.answers? depth .empty
        ((Script.ofLines text.lines).map LogicalLine.text) with
    | some answers =>
        rw [found] at ran
        obtain ⟨d, ran, printed, last, results⟩ := ran
        refine ⟨d, ⟨_, _, started, run.trans ran⟩, ?_, last, ?_⟩
        · rw [printed, out, empty, List.nil_append]
        · rw [results, fresh, List.nil_append]
    | none =>
        rw [found] at ran
        obtain ⟨e, final, failed⟩ := ran
        rintro d ⟨session', c, started', ran'⟩
        rw [started] at started'
        cases started'
        rw [run, failed] at ran'
        cases ran'
  · rw [unanswered]
    rintro d ⟨session, c, ok, -⟩
    rw [started, failed] at ok
    cases ok

end Session

/-! ## A shell -/

/-- Paint may add to a text but keeps it. -/
def Text.Keeps (paint : Text → Text) : Prop := ∀ t, t <:+: paint t

theorem Text.boldRed_keeps : Keeps boldRed := fun _ =>
  ⟨"\x1b[1m\x1b[31m".toList, "\x1b[0m".toList, rfl⟩

/-- Every report has the mark of an error. -/
theorem Diagnostic.mark_notice (d : Diagnostic) (paint : Text → Text) :
    paint "error: ".toList <:+: d.notice paint := by
  refine ⟨if d.internal then paint "[internal] ".toList else [],
    d.message ++ ['\n'] ++
      (if !d.internal && !d.source.isEmpty && d.pointed then (d.caret paint).line else []), ?_⟩
  simp only [notice, Text.line, List.append_assoc]

namespace Shell

/-- Answers lines one after the other, up to one that is answered with a failure. -/
def feed (cfg : Settings) : List Text → Action Unit
  | [] => pure ()
  | line :: rest => do
    let _ ← answer cfg line
    feed cfg rest

/-- No failure was reported: what was printed does not hold the mark that every report has. -/
def Quiet (s : Shell) : Prop :=
  ¬ s.desk.console.reporter.paint "error: ".toList <:+: s.desk.console.out

variable {paint : Text → Text}

/-- What waits in a shell has the words of the text that waits in a script. -/
inductive Awaits (s : Shell) : Option Text → Prop
  | nothing (free : s.pending = []) : Awaits s none
  | more {waiting : Text} (plain : '#' ∉ s.pending) (same : waiting.words = s.pending.words)
      (goes : Script.unclosed waiting) : Awaits s (some waiting)

/-- A line puts its words behind those of the text that waits. -/
theorem words_joined (waiting line : Text) : (Script.joined (some waiting) line).words =
    waiting.words ++ Text.words (line.takeWhile (· != '#')) := by
  rw [Script.joined, List.append_assoc, List.singleton_append, Text.words_append_blank rfl,
    Text.words_trim, Script.words_clean]

theorem Awaits.pending_ne {s : Shell} {waiting : Text} (awaits : s.Awaits (some waiting)) :
    s.pending ≠ [] := by
  cases awaits with
  | more plain same goes =>
      intro empty
      have blank := Text.blank_of_words same
      rw [Script.not_blank_of_unclosed goes, empty] at blank
      cases blank

theorem not_mem_logical (s : Shell) (text : Text) : '#' ∉ s.logical text := by
  intro member
  have kept := (List.rdropWhile_prefix Text.isBlank _).subset member
  simpa using List.mem_takeWhile_imp kept

/-- A line makes a text with the same words in a shell as in a script. -/
theorem Awaits.logical_words {s : Shell} {waiting : Option Text} (awaits : s.Awaits waiting)
    {line text : Text} (same : text = line ∨ text = line.trim) :
    (Script.joined waiting line).words = (s.logical text).words := by
  have typed : Text.words (text.takeWhile (· != '#')) = Text.words (line.takeWhile (· != '#')) := by
    rcases same with rfl | rfl
    · rfl
    · exact Text.words_trim_comment line
  rw [logical, Script.words_clean]
  cases awaits with
  | nothing free =>
      rw [free, Script.joined, Script.words_clean, ← typed]
      rfl
  | @more waiting plain same goes =>
      have waits : s.pending.isEmpty = false := by
        rw [List.isEmpty_eq_false_iff]
        exact (Awaits.more plain same goes).pending_ne
      have kept : (s.pending ++ [' '] ++ text).takeWhile (· != '#') =
          s.pending ++ ' ' :: text.takeWhile (· != '#') := by
        rw [List.append_assoc, List.takeWhile_append_of_pos]
        · rfl
        · intro c member
          rw [bne_iff_ne]
          rintro rfl
          exact plain member
      rw [waits, if_neg (by simp), kept, Text.words_append_blank rfl, typed, words_joined, same]

/-- A blank line leaves the shell waiting for what it waited for. -/
theorem Awaits.blank_line {s : Shell} {waiting : Option Text} (awaits : s.Awaits waiting)
    {line : Text} (blank : line.blank) : ∃ waiting', s.Awaits waiting' ∧
      ∀ later, Script.texts waiting (line :: later) = Script.texts waiting' later := by
  have wordless : Text.words (line.takeWhile (· != '#')) = [] := by
    rw [Text.blank, List.all_eq_true] at blank
    exact Text.words_blank fun c member => blank c ((List.takeWhile_subset _) member)
  cases awaits with
  | nothing free =>
      have empty : (Script.clean line).blank := by
        rw [← Text.words_eq_nil_iff, Script.words_clean, wordless]
      refine ⟨_, .nothing free, fun later => ?_⟩
      rw [Script.texts, Script.joined, Script.closed_of_blank empty, if_neg (by simp), if_pos empty]
  | @more waiting plain same goes =>
      have words : (Script.joined (some waiting) line).words = waiting.words := by
        rw [words_joined, wordless, List.append_nil]
      have goes' := (Script.unclosed_of_words words).trans goes
      refine ⟨_, .more plain (words.trans same) goes', fun later => ?_⟩
      rw [Script.texts, if_pos goes']

/-- What a line comes to in a shell: it waits or is dropped, or it completes the logical line that
it completes in a script, blanks apart. -/
theorem Awaits.answer_cases {s : Shell} {out : Text} {env : Environment} {waiting : Option Text}
    (awaits : s.Awaits waiting) (rest : s.AtRest paint out env) (depth : Nat) {line : Text}
    (typed : ∀ c argument, request line ≠ .command c argument) :
    (∃ reply next waiting', answer ⟨depth, false⟩ line s = .ok reply next ∧
      next.AtRest paint out env ∧ next.Awaits waiting' ∧
      ∀ later, Script.texts waiting (line :: later) = Script.texts waiting' later) ∨
    (∃ text, s.completes line = some text ∧ (Script.joined waiting line).words = text.words ∧
      ∀ later, Script.texts waiting (line :: later) =
        Script.joined waiting line :: Script.texts none later) := by
  have asks := request_asks line
  cases asked : request line with
  | command c argument => exact absurd asked (typed c argument)
  | nothing =>
      rw [asked] at asks
      cases asks with
      | nothing blank =>
          obtain ⟨waiting', awaits', texts⟩ := awaits.blank_line blank
          refine .inl ⟨.emptyLine, s, waiting', ?_, rest, awaits', texts⟩
          rw [answer, asked]
          rfl
  | expression text =>
      rw [asked] at asks
      cases asks with
      | expression same =>
          have words := awaits.logical_words same
          have goes := Script.unclosed_of_words words
          have blank := Text.blank_of_words words
          have answered : answer ⟨depth, false⟩ line s =
              (expression ⟨depth, false⟩ text >>= fun _ => pure .nothing) s := by
            rw [answer, asked]
          rw [bind_apply, expression_eq] at answered
          by_cases waits : Script.unclosed (s.logical text)
          · rw [if_pos waits] at answered
            refine .inl ⟨_, _, _, answered, rest,
              .more (s.not_mem_logical text) words (goes.trans waits), fun later => ?_⟩
            rw [Script.texts, if_pos (goes.trans waits)]
          · rw [if_neg waits] at answered
            by_cases skipped : (s.logical text).blank
            · dsimp only at answered
              rw [if_pos skipped] at answered
              refine .inl ⟨_, _, _, answered, rest, .nothing rfl, fun later => ?_⟩
              rw [Script.texts, if_neg (goes ▸ waits), if_pos (blank.trans skipped)]
            · refine .inr ⟨s.logical text, ?_, words, fun later => ?_⟩
              · simp [completes, asked, waits, skipped]
              · rw [Script.texts, if_neg (goes ▸ waits), if_neg (blank ▸ skipped)]

/-- Evaluating a line at rest prints what its text comes to, or reports. -/
theorem Evaluated.answers {depth : Nat} {line : LogicalLine} {out : Text} {env : Environment}
    {r : EStateM.Result Failure Desk Unit} (evaluated : Evaluated depth line paint out env r) :
    match Tree.answer? depth env line.text with
    | some (_, written, after) =>
        r = .ok () (Desk.typed paint {} (out ++ written.line) (.typed after))
    | none => (∃ e desk, r = .error e desk) ∨ ∃ more after,
        r = .ok () (Desk.typed paint {} (out ++ more) (.typed after)) ∧
        paint "error: ".toList <:+: more := by
  have reported : ∀ e d heading after,
      (∃ e' desk, Desk.reported paint e d heading out after = .error e' desk) ∨
      ∃ more after', Desk.reported paint e d heading out after =
          .ok () (Desk.typed paint {} (out ++ more) (.typed after')) ∧
        paint "error: ".toList <:+: more := by
    intro e d heading after
    rw [Desk.reported]
    split
    · exact .inr ⟨_, _, rfl, (d.mark_notice paint).trans (List.suffix_append _ _).isInfix⟩
    · exact .inl ⟨_, _, rfl⟩
  cases evaluated with
  | printed parsed display evaluated written =>
      simp only [Tree.answer?_parsed parsed, display, evaluated, written]
  | unparsed parsed diagnostic =>
      rw [Tree.answer?_unparsed parsed]
      exact reported _ _ _ _
  | tooHigh parsed display high diagnostic =>
      simp only [Tree.answer?_parsed parsed, display]
      exact reported _ _ _ _
  | failed parsed display evaluated diagnostic =>
      simp only [Tree.answer?_parsed parsed, display, evaluated]
      exact reported _ _ _ _
  | unwritten parsed display evaluated written diagnostic =>
      simp only [Tree.answer?_parsed parsed, display, evaluated, written]
      exact reported _ _ _ _

/-- A line that completes a logical line prints what this comes to, or reports. -/
theorem AtRest.answer_completed {s : Shell} {out : Text} {env : Environment}
    (rest : s.AtRest paint out env) (depth : Nat) {line text : Text}
    (completes : s.completes line = some text) :
    match Tree.answer? depth env text with
    | some (_, written, after) => ∃ next, Shell.answer ⟨depth, false⟩ line s = .ok .nothing next ∧
        next.pending = [] ∧ next.AtRest paint (out ++ written.line) after
    | none => (∃ e next, Shell.answer ⟨depth, false⟩ line s = .error e next) ∨
        ∃ next more after, Shell.answer ⟨depth, false⟩ line s = .ok .nothing next ∧
          next.AtRest paint (out ++ more) after ∧ paint "error: ".toList <:+: more := by
  obtain ⟨nonempty, answered⟩ := answer_completes ⟨depth, false⟩ completes
  have evaluated :=
    (evaluateLine_typed depth ⟨text, (s.lineNumber + 1 : Nat)⟩ nonempty paint out env).answers
  rw [rest] at answered
  dsimp only at evaluated
  cases found : Tree.answer? depth env text with
  | some answer =>
      rw [found] at evaluated
      rw [evaluated] at answered
      exact ⟨_, answered, rfl, rfl⟩
  | none =>
      rw [found] at evaluated
      rcases evaluated with ⟨e, desk, failed⟩ | ⟨more, after, reported, mark⟩
      · rw [failed] at answered
        exact .inl ⟨_, _, answered⟩
      · rw [reported] at answered
        exact .inr ⟨_, more, after, answered, rfl, mark⟩

theorem feed_cons (cfg : Settings) (line : Text) (lines : List Text) (s : Shell) :
    feed cfg (line :: lines) s = match answer cfg line s with
      | .ok _ next => feed cfg lines next
      | .error e next => .error e next := by
  rw [feed, bind_apply]
  cases answer cfg line s <;> rfl

/-- What was printed stays. -/
theorem AtRest.feed {s final : Shell} {out : Text} {env : Environment}
    (rest : s.AtRest paint out env) {depth : Nat} {lines : List Text}
    (fed : Shell.feed ⟨depth, false⟩ lines s = .ok () final) :
    ∃ more last, final.AtRest paint (out ++ more) last := by
  induction lines generalizing s out env with
  | nil =>
      cases fed
      exact ⟨[], env, by rw [List.append_nil]; exact rest⟩
  | cons line lines ih =>
      obtain ⟨more, after, next⟩ := rest.answer depth line
      rw [feed_cons] at fed
      cases answered : Shell.answer ⟨depth, false⟩ line s with
      | error e next' =>
          rw [answered] at fed
          cases fed
      | ok reply next' =>
          rw [answered] at fed next
          obtain ⟨more', last, final⟩ := ih next fed
          exact ⟨more ++ more', last, by rw [← List.append_assoc]; exact final⟩

/-- A report that was printed stays, whatever is typed after it. -/
theorem AtRest.not_quiet {s final : Shell} {out more : Text} {env : Environment}
    (rest : s.AtRest paint (out ++ more) env) (mark : paint "error: ".toList <:+: more)
    {depth : Nat} {lines : List Text} (fed : Shell.feed ⟨depth, false⟩ lines s = .ok () final) :
    ¬ final.Quiet := by
  obtain ⟨later, last, atRest⟩ := rest.feed fed
  intro quiet
  refine quiet ?_
  rw [atRest]
  exact mark.trans ⟨out, later, rfl⟩

/-- Nothing comes of a text that waits if no line is typed any more. -/
theorem Awaits.unanswered {s : Shell} {waiting : Text} (awaits : s.Awaits (some waiting))
    (depth : Nat) (env : Environment) :
    Script.answers? depth env (Script.texts (some waiting) []) = none := by
  cases awaits with
  | more plain same goes =>
      simp only [Script.texts, Option.toList_some, Script.answers?, Tree.answer?_unclosed goes]

/-- Lines typed into a shell print what their logical lines come to, and else are not all answered
well. -/
theorem feed_answers (depth : Nat) (lines : List Text)
    (typed : ∀ line ∈ lines, ∀ c argument, request line ≠ .command c argument) {s : Shell}
    {out : Text} {env : Environment} {waiting : Option Text} (rest : s.AtRest paint out env)
    (awaits : s.Awaits waiting) :
    match Script.answers? depth env (Script.texts waiting lines) with
    | some (_, shown, last) => ∃ final, feed ⟨depth, false⟩ lines s = .ok () final ∧
        final.pending = [] ∧ final.AtRest paint (out ++ Text.printed shown) last
    | none => ∀ final, feed ⟨depth, false⟩ lines s = .ok () final → final.pending = [] →
        ¬ final.Quiet := by
  -- what was printed, the variables and what waits are those that the lines before have left
  induction lines generalizing s out env waiting with
  | nil =>
      cases waiting with
      | none =>
          cases awaits with
          | nothing free =>
              refine ⟨s, rfl, free, ?_⟩
              rw [Text.printed, List.map_nil, List.flatten_nil, List.append_nil]
              exact rest
      | some w =>
          rw [awaits.unanswered]
          rintro final ⟨⟩ free
          exact absurd free awaits.pending_ne
  | cons line lines ih =>
      have typedLater := fun l member => typed l (List.mem_cons_of_mem line member)
      rcases awaits.answer_cases rest depth (typed line List.mem_cons_self) with
        ⟨reply, next, waiting', answered, rest', awaits', texts⟩ | ⟨text, completes, words, texts⟩
      · have later := ih typedLater rest' awaits'
        rw [texts, feed_cons, answered]
        exact later
      · have first := rest.answer_completed depth completes
        rw [texts, Script.answers?, Tree.answer?_of_words words, feed_cons]
        cases found : Tree.answer? depth env text with
        | none =>
            rw [found] at first
            intro final fed _
            rcases first with ⟨e, next, failed⟩ | ⟨next, more, after, answered, rest', mark⟩
            · rw [failed] at fed
              cases fed
            · rw [answered] at fed
              exact rest'.not_quiet mark fed
        | some value =>
            obtain ⟨value, written, after⟩ := value
            rw [found] at first
            obtain ⟨next, answered, free, rest'⟩ := first
            have later := ih typedLater rest' (.nothing free)
            rw [answered]
            dsimp only
            cases answers : Script.answers? depth after (Script.texts none lines) with
            | none =>
                rw [answers] at later
                exact later
            | some values =>
                rw [answers] at later
                obtain ⟨final, fed, free', rest''⟩ := later
                refine ⟨final, fed, free', ?_⟩
                rw [Text.printed_cons, ← List.append_assoc]
                exact rest''

/-- An empty line at the end makes no difference. -/
theorem feed_trailing (cfg : Settings) (lines : List Text) (s : Shell) :
    feed cfg (lines ++ [[]]) s = feed cfg lines s := by
  induction lines generalizing s with
  | nil => rfl
  | cons line lines ih =>
      rw [List.cons_append, feed_cons, feed_cons]
      cases answer cfg line s with
      | ok reply next => exact ih next
      | error e next => rfl

/-- A fresh shell answers all lines without failing or reporting a failure, and none waits in the
end. -/
def Accepts (cfg : Settings) (paint : Text → Text) (lines : List Text) (s : Shell) : Prop :=
  feed cfg lines (fresh paint) = .ok () s ∧ s.Quiet ∧ s.pending = []

theorem Accepts.unique {cfg : Settings} {lines : List Text} {s s' : Shell}
    (first : Accepts cfg paint lines s) (second : Accepts cfg paint lines s') : s = s' := by
  have same := first.1.symm.trans second.1
  cases same
  rfl

/-- A shell accepts lines exactly if their logical lines come to something, and then with this. -/
theorem accepts_answers (depth : Nat) (keeps : Text.Keeps paint) (lines : List Text)
    (typed : ∀ line ∈ lines, ∀ c argument, request line ≠ .command c argument) :
    match Script.answers? depth .empty (Script.texts none lines) with
    | some (_, shown, last) => ∃ s, Accepts ⟨depth, false⟩ paint lines s ∧
        s.desk.console.out = Text.printed shown ∧ s.desk.session.environment = last
    | none => ∀ s, ¬ Accepts ⟨depth, false⟩ paint lines s := by
  have fed := @feed_answers paint depth lines typed (fresh paint) [] .empty none rfl (.nothing rfl)
  cases found : Script.answers? depth .empty (Script.texts none lines) with
  | none =>
      rw [found] at fed
      rintro s ⟨ok, quiet, free⟩
      exact fed s ok free quiet
  | some answers =>
      rw [found] at fed
      obtain ⟨s, ok, free, rest⟩ := fed
      have out : s.desk.console.out = Text.printed answers.2.1 := by rw [rest]; rfl
      refine ⟨s, ⟨ok, fun report => ?_, free⟩, out, by rw [rest]; rfl⟩
      have painted : s.desk.console.reporter.paint = paint := by rw [rest]; rfl
      rw [out, painted] at report
      exact Script.answers?_plain found (((keeps _).trans report).subset (by decide))

/-- Take lines without line ends, none of which the shell takes for a command, and a file that is
made of them, and let paint keep what is painted.  A session that prints its results loads the file
and runs to the end exactly if a fresh shell accepts the lines.  Then both print the same, which is
the written values of the file's results, and both leave the same variables in the same order. -/
theorem accepts_iff_finishes (depth : Nat) (paint : Text → Text) (read : FileReader)
    (path text : Text) (interactive : Bool) (lines : List Text) (keeps : Text.Keeps paint)
    (plain : ∀ line ∈ lines, '\n' ∉ line ∧ '\r' ∉ line)
    (typed : ∀ line ∈ lines, ∀ c argument, request line ≠ .command c argument)
    (named : path ≠ Session.typedPath) (readable : Session.readFile read path = .ok text)
    (made : text.MadeOf lines) :
    (Text.printed lines).MadeOf lines ∧ (Text.join ['\n'] lines).MadeOf lines ∧
    Session.start ⟨depth, false⟩ read Session.typedPath true false (.opened paint) =
      .ok (fresh paint).desk.session (fresh paint).desk.console ∧
    ((∃ d, Session.Finishes ⟨depth, false⟩ paint read path interactive d) ↔
      ∃ s, Accepts ⟨depth, false⟩ paint lines s) ∧
    ∀ d s, Session.Finishes ⟨depth, false⟩ paint read path interactive d →
      Accepts ⟨depth, false⟩ paint lines s →
      (∃ shown, List.Forall₂ (fun value written => Number.text value = .ok written)
          d.session.results shown ∧
        d.console.out = Text.printed shown ∧ s.desk.console.out = Text.printed shown) ∧
      d.session.environment = s.desk.session.environment := by
  have accepts : ∀ s, Accepts ⟨depth, false⟩ paint lines s ↔
      Accepts ⟨depth, false⟩ paint text.lines s := by
    rcases made with rfl | rfl
    · exact fun s => Iff.rfl
    · intro s
      rw [Accepts, feed_trailing, Accepts]
  have typedText : ∀ line ∈ text.lines, ∀ c argument, request line ≠ .command c argument := by
    intro line member
    rcases made with rfl | rfl
    · exact typed line member
    · exact typed line (List.mem_append_left _ member)
  have file := @Session.finishes_answers depth paint read path text named readable interactive
  have shell := accepts_answers depth keeps text.lines typedText
  refine ⟨Text.madeOf_ended plain, Text.madeOf_joined plain, rfl, ?_⟩
  simp only [accepts]
  cases found : Script.answers? depth .empty (Script.texts none text.lines) with
  | none =>
      rw [found] at file shell
      refine ⟨⟨fun ⟨d, finishes⟩ => absurd finishes (file d),
        fun ⟨s, accepted⟩ => absurd accepted (shell s)⟩, fun d s finishes => ?_⟩
      exact absurd finishes (file d)
  | some answers =>
      rw [found] at file shell
      obtain ⟨d, finishes, out, env, results⟩ := file
      obtain ⟨s, accepted, out', env'⟩ := shell
      refine ⟨⟨fun _ => ⟨s, accepted⟩, fun _ => ⟨d, finishes⟩⟩, fun d' s' finishes' accepted' => ?_⟩
      obtain rfl := finishes.unique finishes'
      obtain rfl := accepted.unique accepted'
      refine ⟨⟨answers.2.1, ?_, out, out'⟩, env.trans env'.symm⟩
      rw [results]
      exact Script.answers?_written found

/-- A logical line over four lines, of which one is empty and one a comment, comes to the same in a
file and in a shell. -/
theorem accepts_iff_finishes_four_lines :
    let lines := ["  x = 7 # days".toList, "(x -".toList, [], "  # less".toList, " (y = 2))".toList,
      "x / y".toList]
    let read : FileReader := fun _ =>
      some "  x = 7 # days\n(x -\n\n  # less\n (y = 2))\nx / y".toUTF8.toList
    (∀ line ∈ lines, '\n' ∉ line ∧ '\r' ∉ line) ∧
    (∀ line ∈ lines, ∀ c argument, request line ≠ .command c argument) ∧
    Session.readFile read "calc.txt".toList = .ok (Text.join ['\n'] lines) ∧
    ∃ d s, Session.Finishes ⟨20, false⟩ Text.boldRed read "calc.txt".toList false d ∧
      Accepts ⟨20, false⟩ Text.boldRed lines s ∧ d.console.out = s.desk.console.out ∧
      s.desk.console.out = "7\n5\n3.5\n".toList ∧
      d.session.environment = ⟨[("x".toList, .int 7), ("y".toList, .int 2)]⟩ := by
  intro lines read
  have plain : ∀ line ∈ lines, '\n' ∉ line ∧ '\r' ∉ line := by decide +kernel
  have expressions : ∀ line ∈ lines,
      (match request line with | .command _ _ => false | _ => true) = true := by decide +kernel
  have readable : Session.readFile read "calc.txt".toList = .ok (Text.join ['\n'] lines) := by cbv
  have answers : Script.answers? 20 .empty (Script.texts none lines) =
      some ([.int 7, .int 5, .float (Double.ofQuotient 7 2)],
        ["7".toList, "5".toList, "3.5".toList],
        ⟨[("x".toList, .int 7), ("y".toList, .int 2)]⟩) := by decide +kernel
  -- from here on nothing is computed any more
  clear_value lines read
  have typed : ∀ line ∈ lines, ∀ c argument, request line ≠ .command c argument := by
    intro line member c argument asked
    have expression := expressions line member
    rw [asked] at expression
    cases expression
  have accepted := accepts_answers 20 Text.boldRed_keeps lines typed
  rw [answers] at accepted
  obtain ⟨s, accepted, out, env⟩ := accepted
  obtain ⟨-, made, -, both, same⟩ := accepts_iff_finishes 20 Text.boldRed read "calc.txt".toList
    (Text.join ['\n'] lines) false lines Text.boldRed_keeps plain typed (by decide) readable
    (Text.madeOf_joined plain)
  obtain ⟨d, finishes⟩ := both.mpr ⟨s, accepted⟩
  obtain ⟨⟨shown, -, printed, printed'⟩, known⟩ := same d s finishes accepted
  exact ⟨plain, typed, readable, d, s, finishes, accepted, printed.trans printed'.symm, out,
    known.trans env⟩

end Shell
end Abacus
