/- # What the parser recognises

Every rule has an outcome in the sense of its phrase: `Rule.run_outcome` is the induction over the
allowance, with one lemma for each rule, and inside it the induction over the operators of a chain
(`Rule.chain_outcome`).  For whole texts this gives `Tree.parse_verdict`: a text is accepted with a
tree that the grammar derives from its tokens, or rejected at the first token that cannot follow, or
refused with the scanner, all tokens before being fit to be completed.  An ample allowance is never
used up. -/
import Abacus.Proofs.Outcome

namespace Abacus
set_option autoImplicit false

open Token (Lexeme lexemes)

/-- A cursor whose tokens are no more than its text has room for. -/
def Cursor.Fits (c : Cursor) : Prop := c.ahead.1.length ≤ c.scanner.text.length + 1

theorem Cursor.Fits.of_shorter {c after : Cursor} (fits : c.Fits)
    (text : after.scanner.text = c.scanner.text)
    (shorter : after.ahead.1.length ≤ c.ahead.1.length) : after.Fits := by
  rw [Cursor.Fits, text]
  exact Nat.le_trans shorter fits

theorem Level.going {level : Level} {kind : Token.Kind} (operator : level.isOperator kind) :
    kind ≠ .endOfText := by
  rintro rfl
  cases level <;> cases operator

namespace Rule

theorem chain_succ (isOperator : Token.Kind → Bool) (operand : Cursor.Action Tree) (n : Nat)
    (t : Tree) (c : Cursor) :
    chain isOperator operand (n + 1) t c =
      if isOperator c.current.kind then
        (Cursor.advance >>= fun _ => operand >>= fun right =>
          chain isOperator operand n (.binary c.current.kind t right)) c
      else .ok t c := by
  rw [chain]
  simp only [bind, EStateM.bind, get, getThe, MonadStateOf.get, EStateM.get]
  split <;> rfl

/-- The loop over the operators of a chain.  The allowance of operators never runs out, since every
operator takes one of the tokens ahead. -/
theorem chain_outcome (level : Level) {depth : Nat} {operand : Cursor.Action Tree}
    (recognised : ∀ c : Cursor, c.Fits → Outcome level.operand depth [] c (operand c)) :
    ∀ (n : Nat) (t : Tree) (c : Cursor), c.Fits → c.ahead.1.length ≤ n →
      level.operand.extends c.current.kind = false →
      Outcome (.rest level t) (depth + 1) [] c (chain level.isOperator operand n t c) := by
  intro n
  induction n with
  | zero =>
      intro t c fits enough stops
      obtain ⟨more, head⟩ := c.ahead_head
      rw [head] at enough
      cases enough
  | succ n ih =>
      intro t c fits enough stops
      rw [chain_succ]
      by_cases operator : level.isOperator c.current.kind
      · rw [if_pos operator]
        refine .step (Level.going operator) ?_ fun after text ahead => ?_
        · have zero : Derives level.operand [.integer 0] _ :=
            .operand_of_unary level (.atom .integer)
          have derived := Derives.more operator zero (.done (t := .binary _ t _))
          exact ⟨[.integer 0], _, derived⟩
        · have tokens : c.ahead.1 = c.current :: after.ahead.1 := by rw [ahead]
          rw [tokens, List.length_cons] at enough
          have fitsAfter : after.Fits :=
            fits.of_shorter text (by rw [tokens, List.length_cons]; omega)
          refine .link (opens_rest level t operator) level.rank_eq
            (recognised after fitsAfter) fun right behind text' fewer stops' => ?_
          exact ih _ behind (fitsAfter.of_shorter text' fewer) (by omega) stops'
      · rw [if_neg operator]
        refine .accepted [] c.ahead.1 rfl .done (Ends.rest_iff.mpr fun l more same => ?_) rfl rfl
        obtain ⟨later, head⟩ := c.ahead_head
        rw [head] at same
        obtain ⟨rfl, -⟩ := List.cons.inj same
        rw [level.extends_eq, Bool.or_eq_false_iff]
        exact ⟨stops, Bool.eq_false_iff.mpr operator⟩

theorem operators_outcome (level : Level) {depth : Nat} {operand : Cursor.Action Tree}
    (recognised : ∀ c : Cursor, c.Fits → Outcome level.operand depth [] c (operand c)) (c : Cursor)
    (fits : c.Fits) :
    Outcome (.chain level) (depth + 1) [] c (operators level.isOperator operand c) := by
  have same : operators level.isOperator operand c =
      (operand >>= fun first after =>
        chain level.isOperator operand (after.scanner.text.length + 1) first after) c := rfl
  rw [same]
  refine .link (opens_chain level) level.rank_eq (recognised c fits)
    fun first after text fewer stops => ?_
  have fitsAfter := fits.of_shorter text fewer
  exact chain_outcome level recognised _ first after fitsAfter fitsAfter stops

/-! ## The rules -/

/-- The tokens up to a rejected one start with the current token. -/
theorem first_lexeme {c : Cursor} {found later : List Token} {token : Token}
    (split : c.ahead.1 = found ++ token :: later) (w : List Lexeme) :
    ∃ more, lexemes found ++ token.lexeme :: w = c.current.lexeme :: more := by
  obtain ⟨more, head⟩ := c.ahead_head
  rw [split] at head
  cases found with
  | nil =>
      obtain ⟨rfl, -⟩ := List.cons.inj head
      exact ⟨w, rfl⟩
  | cons first found =>
      obtain ⟨rfl, -⟩ := List.cons.inj head
      exact ⟨_, rfl⟩

theorem run_unary (depth : Nat) (c : Cursor) :
    run (depth + 1) .unary c =
      if isSign c.current.kind then
        (Cursor.advance >>= fun _ => run depth .unary >>= fun t =>
          pure (.unary c.current.kind t)) c
      else run depth .atom c := by
  rw [run]
  simp only [bind, EStateM.bind, get, getThe, MonadStateOf.get, EStateM.get]
  split <;> rfl

/-- An atom follows unless a sign does. -/
theorem unary_outcome {depth : Nat}
    (unary : ∀ c : Cursor, c.Fits → Outcome .unary depth [] c (run depth .unary c))
    (atom : ∀ c : Cursor, c.Fits → Outcome .atom depth [] c (run depth .atom c))
    (c : Cursor) (fits : c.Fits) :
    Outcome .unary (depth + 1) [] c (run (depth + 1) .unary c) := by
  rw [run_unary]
  by_cases sign : isSign c.current.kind
  · rw [if_pos sign]
    have going : c.current.kind ≠ .endOfText := @Level.going .additive _ sign
    refine .step going ⟨[.integer 0], _, .sign sign (.atom .integer)⟩ fun after text ahead => ?_
    have fitsAfter : after.Fits := fits.of_shorter text (by rw [ahead]; simp)
    refine .embed (.unary c.current.kind) (unary after fitsAfter) ?_ ?_ ?_ (by simp [Phrase.rank])
    · intro found later t split derived ends
      exact ⟨.sign sign derived, .unary _ _⟩
    · rintro here ⟨more, t, derived⟩
      exact ⟨more, _, .sign sign derived⟩
    · intro found token later split bars u t v w derived ends same
      cases derived with
      | sign operator operand =>
          exact bars _ _ v w operand (.unary _ _) (List.cons.inj same).2
      | atom whole =>
          obtain ⟨l, x, rfl, plain⟩ := whole.atom_head
          obtain ⟨rfl, -⟩ := List.cons.inj same
          have plain' : isSign c.current.kind = false := plain
          rw [sign] at plain'
          cases plain'
  · rw [if_neg sign]
    refine .embed_same (atom c fits) ?_ ?_ ?_ (by decide)
    · intro found later t split derived ends
      exact ⟨.atom derived, .unary _ _⟩
    · rintro here ⟨more, t, derived⟩
      exact ⟨more, t, .atom derived⟩
    · intro found token later split bars u t v w derived ends same
      cases derived with
      | atom whole => exact bars u t v w whole (.atom _ _) same
      | sign operator operand =>
          obtain ⟨more, first⟩ := first_lexeme split w
          rw [first] at same
          obtain ⟨rfl, -⟩ := List.cons.inj same
          exact sign operator

theorem expect_fits {c : Cursor} {kind : Token.Kind} {next : Cursor.Action Tree}
    (fits : c.current.kind = kind) :
    (Cursor.expect kind >>= fun _ => next) c = (Cursor.advance >>= fun _ => next) c := by
  rw [bind_apply, bind_apply, Cursor.expect_eq fits]
  cases Cursor.advance c <;> rfl

theorem expect_rejects {c : Cursor} {kind : Token.Kind} {next : Cursor.Action Tree}
    (other : c.current.kind ≠ kind) :
    (Cursor.expect kind >>= fun _ => next) c = .error (c.rejection c.current) c := by
  rw [bind_apply, Cursor.expect, if_neg other]
  rfl

theorem run_atom (depth : Nat) (c : Cursor) :
    run (depth + 1) .atom c =
      match c.current.lexeme with
      | .integer value => (Cursor.advance >>= fun _ => pure (.literal (.int value))) c
      | .identifier name => (Cursor.advance >>= fun _ => pure (.reference name)) c
      | .symbol .openParen =>
          (Cursor.advance >>= fun _ => run depth .expression >>= fun t =>
            Cursor.expect (.symbol .closeParen) >>= fun _ => pure t) c
      | _ => .error (c.rejection c.current) c := by
  rw [run]
  simp only [bind, EStateM.bind, get, getThe, MonadStateOf.get, EStateM.get]
  cases c.current.lexeme with
  | symbol s => cases s <;> rfl
  | _ => rfl

/-- Behind the opening parenthesis: an expression and the closing one. -/
theorem parentheses_outcome {depth : Nat}
    (expression : ∀ c : Cursor, c.Fits → Outcome .expression depth [] c (run depth .expression c))
    (c : Cursor) (fits : c.Fits) :
    Outcome .atom (depth + 1) [.symbol .openParen] c
      ((run depth .expression >>= fun t => Cursor.expect (.symbol .closeParen) >>= fun _ => pure t)
        c) := by
  have inner := expression c fits
  rw [bind_apply]
  generalize run depth .expression c = r at inner
  cases inner with
  | rejected found later split viable bars =>
      refine .rejected found later split ?_ ?_
      · obtain ⟨more, t, derived⟩ := viable
        refine ⟨more ++ [.symbol .closeParen], t, ?_⟩
        simpa using Derives.parentheses derived
      · intro u t v w derived ends same
        obtain ⟨inside, rfl, inner⟩ := derived.of_openParen same
        simp only [List.cons_append, List.append_assoc, List.nil_append, List.cons.injEq,
          true_and] at same
        exact bars inside t _ w inner (.closeParen _ _) same
  | refused refusal viable =>
      obtain ⟨more, t, derived⟩ := viable
      refine .refused refusal ⟨more ++ [.symbol .closeParen], t, ?_⟩
      simpa using Derives.parentheses derived
  | tooDeep short =>
      refine .tooDeep ?_
      simp only [Phrase.need, Phrase.rank, List.length_nil, List.length_singleton] at short ⊢
      omega
  | @accepted found later t after split derived ends text ahead =>
      have tokens : after.ahead.1 = later := by rw [ahead]
      obtain ⟨behind, head⟩ := after.ahead_head
      rw [tokens] at head
      rw [List.nil_append] at derived ends
      dsimp only
      by_cases closes : after.current.kind = .symbol .closeParen
      · rw [expect_fits closes]
        refine .unread text (by rw [split, tokens]) (by rw [ahead]) ?_
        have close : after.current.lexeme = .symbol .closeParen := Lexeme.eq_of_kind closes
        have whole : Derives .atom ([.symbol .openParen] ++ lexemes found ++ [after.current.lexeme])
            t := by
          rw [close]
          exact .parentheses derived
        refine .step (by rw [closes]; simp) ⟨[], t, by simpa using whole⟩
          fun last text' ahead' => ?_
        exact .accepted [] last.ahead.1 rfl (by simpa using whole) (.atom _ _) rfl rfl
      · rw [expect_rejects closes, Cursor.rejection, text]
        refine .rejected found behind (by rw [split, head]) ?_ ?_
        · refine ⟨[.symbol .closeParen], t, ?_⟩
          simpa using Derives.parentheses derived
        · intro u t' v w derivedU endsU same
          obtain ⟨inside, rfl, inner⟩ := derivedU.of_openParen same
          simp only [List.cons_append, List.append_assoc, List.nil_append, List.cons.injEq,
            true_and] at same
          rw [head] at ends
          have ends' : Ends .expression (lexemes found) ([] ++ after.current.lexeme :: w) :=
            Ends.of_shared ends w
          obtain ⟨rfl, -⟩ := inner.unique derived same (.closeParen _ _) ends'
          have close := (List.cons.inj (List.append_cancel_left same)).1
          exact closes (congrArg Lexeme.kind close).symm

/-- A token that is an atom by itself. -/
theorem single_outcome {depth : Nat} {c : Cursor} {t : Tree} (going : c.current.kind ≠ .endOfText)
    (derived : Derives .atom [c.current.lexeme] t) :
    Outcome .atom depth [] c ((Cursor.advance >>= fun _ => pure t) c) := by
  refine .step going ⟨[], t, derived⟩ fun after text ahead => ?_
  exact .accepted [] after.ahead.1 rfl derived (.atom _ _) rfl rfl

theorem atom_outcome {depth : Nat}
    (expression : ∀ c : Cursor, c.Fits → Outcome .expression depth [] c (run depth .expression c))
    (c : Cursor) (fits : c.Fits) :
    Outcome .atom (depth + 1) [] c (run (depth + 1) .atom c) := by
  obtain ⟨later, head⟩ := c.ahead_head
  have going (l : Lexeme) (here : c.current.lexeme = l) (word : l.kind ≠ .endOfText) :
      c.current.kind ≠ .endOfText := by
    rw [Token.kind, here]
    exact word
  rw [run_atom]
  split
  · rename_i value here
    refine single_outcome (going _ here (by simp [Lexeme.kind])) ?_
    rw [here]
    exact .integer
  · rename_i name here
    refine single_outcome (going _ here (by simp [Lexeme.kind])) ?_
    rw [here]
    exact .identifier
  · rename_i here
    refine .step (going _ here (by simp [Lexeme.kind])) ?_ fun after text ahead => ?_
    · rw [here]
      have inside : Derives .expression [.integer 0] _ := .expression_of_unary (.atom .integer)
      exact ⟨[.integer 0, .symbol .closeParen], _, .parentheses inside⟩
    · rw [here]
      exact parentheses_outcome expression after (fits.of_shorter text (by rw [ahead]; simp))
  · rename_i noInteger noName noParen
    refine .rejected [] later head ?_ ?_
    · exact ⟨[.integer 0], _, .integer⟩
    · intro u t v w derived ends same
      cases derived with
      | integer => exact noInteger _ (List.cons.inj same).1.symm
      | identifier => exact noName _ (List.cons.inj same).1.symm
      | parentheses inner => exact noParen (List.cons.inj same).1.symm

/-! ## Assignments -/

theorem run_assignment (depth : Nat) (c : Cursor) :
    run (depth + 1) .assignment c =
      match c.current.lexeme with
      | .identifier name =>
          (Cursor.peek >>= fun next =>
            if next.kind = .symbol .assign then
              Cursor.expect .identifier >>= fun _ => Cursor.expect (.symbol .assign) >>= fun _ =>
                run depth .expression >>= fun value =>
                  pure (.assignment (.reference name) value)
            else run depth .additive) c
      | _ => run depth .additive c := by
  rw [run]
  simp only [bind, EStateM.bind, get, getThe, MonadStateOf.get, EStateM.get]
  cases c.current.lexeme <;> rfl

/-- Without a name in front of "=" at its start, an assignment is a chain. -/
theorem plain_outcome {depth : Nat} {c : Cursor}
    (additive : Outcome (.chain .additive) depth [] c (run depth .additive c))
    (plain : ∀ name w, lexemes c.ahead.1 ≠ .identifier name :: .symbol .assign :: w) :
    Outcome .assignment (depth + 1) [] c (run depth .additive c) := by
  refine .embed_same additive ?_ ?_ ?_ (by decide)
  · intro found later t split derived ends
    refine ⟨.additive derived, ends.operator, fun _ dangling more same => ?_⟩
    obtain ⟨name, single⟩ := derived.eq_name_of_dangling rfl dangling
    refine plain name more ?_
    rw [split, Token.lexemes_append, single, same]
    rfl
  · rintro here ⟨more, t, derived⟩
    exact ⟨more, t, .additive derived⟩
  · intro found token later split bars u t v w derived ends same
    cases derived with
    | additive whole => exact bars u t v w whole (Ends.chain_iff.mpr ends.operator) same
    | @assign name u t value =>
        have known : lexemes c.ahead.1 = lexemes found ++ token.lexeme :: lexemes later := by
          rw [split, Token.lexemes_append, Token.lexemes_cons]
        match found, same, known, bars with
        | [], same, _, bars =>
            obtain ⟨here, -⟩ := List.cons.inj same
            refine bars [.identifier name] (.reference name) [] [] ?_ (.nil _ _) (by rw [here]; rfl)
            exact .additive_of_unary (.atom .identifier)
        | [first], same, known, _ =>
            obtain ⟨here, same⟩ := List.cons.inj same
            obtain ⟨here', -⟩ := List.cons.inj same
            exact plain name (lexemes later) (by rw [known, here, here']; rfl)
        | first :: second :: found, same, known, _ =>
            obtain ⟨here, same⟩ := List.cons.inj same
            obtain ⟨here', -⟩ := List.cons.inj same
            exact plain name _ (by rw [known, here, here']; rfl)

/-- Behind a name and "=" comes the value of an assignment. -/
theorem assign_outcome {depth : Nat} {name : Text}
    (expression : ∀ c : Cursor, c.Fits → Outcome .expression depth [] c (run depth .expression c))
    (c : Cursor) (fits : c.Fits) :
    Outcome .assignment (depth + 1) [.identifier name, .symbol .assign] c
      ((run depth .expression >>= fun value => pure (.assignment (.reference name) value)) c) := by
  refine .embed (.assignment (.reference name)) (expression c fits) ?_ ?_ ?_
    (by simp [Phrase.rank])
  · intro found later t split derived ends
    exact ⟨.assign derived, ends.operator, fun _ dangling => ends.assign rfl dangling⟩
  · rintro here ⟨more, t, derived⟩
    exact ⟨more, _, .assign derived⟩
  · intro found token later split bars u t v w derived ends same
    cases derived with
    | additive whole => exact whole.not_chain_of_assign ends same
    | assign value =>
        obtain ⟨-, same⟩ := List.cons.inj same
        exact bars _ _ v w value ends.value (List.cons.inj same).2

theorem assignment_outcome {depth : Nat}
    (expression : ∀ c : Cursor, c.Fits → Outcome .expression depth [] c (run depth .expression c))
    (additive : ∀ c : Cursor, c.Fits →
      Outcome (.chain .additive) depth [] c (run depth .additive c))
    (c : Cursor) (fits : c.Fits) :
    Outcome .assignment (depth + 1) [] c (run (depth + 1) .assignment c) := by
  rw [run_assignment]
  split
  · rename_i name here
    have going : c.current.kind ≠ .endOfText := by
      rw [Token.kind, here]
      simp [Lexeme.kind]
    have single : Derives (.chain .additive) [.identifier name] (.reference name) :=
      .additive_of_unary (.atom .identifier)
    rw [bind_apply]
    rcases c.peek_cases going with
      ⟨next, later, after, looked, current, text, ahead, tokens⟩ | ⟨d, after, looked, ahead⟩
    · rw [looked]
      dsimp only
      have fitsAfter : after.Fits := fits.of_shorter text (by rw [ahead])
      have nothing : c.ahead.1 = [] ++ after.ahead.1 := by rw [ahead]; rfl
      refine .unread text nothing (by rw [ahead]) ?_
      rw [← ahead, ← current] at tokens
      rw [← current] at going here
      by_cases assign : next.kind = .symbol .assign
      · rw [if_pos assign, expect_fits (by rw [Token.kind, here]; rfl)]
        refine .step going ⟨[], _, by rw [here]; exact .additive single⟩
          fun second text' ahead' => ?_
        have tokens' : second.ahead.1 = next :: later := by
          rw [ahead'] at tokens
          exact (List.cons.inj tokens).2
        have current' : second.current = next := by
          obtain ⟨more, head⟩ := second.ahead_head
          rw [tokens'] at head
          exact (List.cons.inj head).1.symm
        rw [← current'] at assign
        have equals : second.current.lexeme = .symbol .assign := Lexeme.eq_of_kind assign
        rw [expect_fits assign]
        refine .step (by rw [assign]; simp) ?_ fun third text'' ahead'' => ?_
        · rw [here, equals]
          have zero : Derives .expression [.integer 0] _ := .expression_of_unary (.atom .integer)
          exact ⟨[.integer 0], _, .assign zero⟩
        · rw [here, equals]
          refine assign_outcome expression third ?_
          refine (fitsAfter.of_shorter text' ?_).of_shorter text'' ?_
          · rw [ahead']; simp
          · rw [ahead'']; simp
      · rw [if_neg assign]
        refine plain_outcome (additive after fitsAfter) fun other w same => assign ?_
        rw [tokens] at same
        rw [Token.kind, (List.cons.inj (List.cons.inj same).2).1]
        rfl
    · rw [looked]
      refine .refused (by rw [ahead]) ⟨[], .reference name, ?_⟩
      rw [ahead, Token.lexemes_cons, here]
      exact .additive single
  · rename_i noName
    refine plain_outcome (additive c fits) fun name w same => ?_
    obtain ⟨later, head⟩ := c.ahead_head
    rw [head] at same
    exact noName name (List.cons.inj same).1

theorem expression_outcome {depth : Nat}
    (assignment : ∀ c : Cursor, c.Fits → Outcome .assignment depth [] c (run depth .assignment c))
    (c : Cursor) (fits : c.Fits) :
    Outcome .expression (depth + 1) [] c (run (depth + 1) .expression c) := by
  rw [run]
  refine .embed_same (assignment c fits) ?_ ?_ ?_ (by decide)
  · intro found later t split derived ends
    exact ⟨.expression derived, ends.operator, ends.assign⟩
  · rintro here ⟨more, t, derived⟩
    exact ⟨more, t, .expression derived⟩
  · intro found token later split bars u t v w derived ends same
    cases derived with
    | expression whole => exact bars u t v w whole ⟨ends.operator, ends.assign⟩ same

/-- Every rule recognises its phrase. -/
theorem run_outcome (depth : Nat) (rule : Rule) (c : Cursor) (fits : c.Fits) :
    Outcome rule.phrase depth [] c (run depth rule c) := by
  induction depth generalizing rule c with
  | zero =>
      rw [run]
      refine .tooDeep ?_
      cases rule <;> simp [Rule.phrase, Phrase.need, Phrase.rank, Level.rank]
  | succ depth ih =>
      cases rule with
      | expression => exact expression_outcome (ih .assignment) c fits
      | assignment => exact assignment_outcome (ih .expression) (ih .additive) c fits
      | additive =>
          rw [run]
          exact operators_outcome .additive (ih .multiplicative) c fits
      | multiplicative =>
          rw [run]
          exact operators_outcome .multiplicative (ih .unary) c fits
      | unary => exact unary_outcome (ih .unary) (ih .atom) c fits
      | atom => exact atom_outcome (ih .expression) c fits

end Rule

/-! ## Whole texts -/

/-- Behind lexemes that can be completed, the lexeme `l` is the first that cannot follow: no
derivation goes on with it, or it is the end of the text and the lexemes are no derivation yet. -/
def Stuck (here : List Lexeme) (l : Lexeme) : Prop :=
  if l.kind = .endOfText then ¬ ∃ t, Derives .expression here t
  else ¬ Viable .expression (here ++ [l])

theorem Bars.stuck {here : List Lexeme} {l : Lexeme} (bars : Bars .expression here l) :
    Stuck here l := by
  unfold Stuck
  split
  · rename_i last
    rintro ⟨t, derived⟩
    obtain rfl : l = .endOfText := by cases l <;> simp_all [Lexeme.kind]
    refine bars here t [.endOfText] [] derived ⟨fun k more same => ?_, fun _ _ more same => ?_⟩ rfl
    · cases same
      rfl
    · cases same
  · rintro ⟨more, t, derived⟩
    exact bars _ t [] more derived (.nil _ _) (by simp)

/-- Nothing but the end can follow an expression that does not go on. -/
theorem Derives.stuck {here later : List Lexeme} {l : Lexeme} {t : Tree}
    (derived : Derives .expression here t) (ends : Ends .expression here (l :: later))
    (going : l.kind ≠ .endOfText) : Stuck here l := by
  rw [Stuck, if_neg going]
  rintro ⟨more, t', longer⟩
  have ends' : Ends .expression here ([] ++ l :: more) := Ends.of_shared ends more
  obtain ⟨same, -⟩ := longer.unique derived (v := []) (by simp) (.nil _ _) ends'
  simp at same

theorem viable_nil : Viable .expression [] :=
  ⟨[.integer 0], _, .expression_of_unary (.atom .integer)⟩

/-- What parsing a text comes to. -/
inductive Verdict (depth : Nat) (text : Text) : Except Failure Tree → Prop
  | accepted {found : List Token} {stop : Token} {t : Tree}
      (tokens : Scanner.tokens text = (found ++ [stop], none)) (last : stop.kind = .endOfText)
      (derived : Derives .expression (lexemes found) t) : Verdict depth text (.ok t)
  | rejected {k : Nat} {token : Token} (here : (Scanner.tokens text).1[k]? = some token)
      (viable : Viable .expression (lexemes ((Scanner.tokens text).1.take k)))
      (stuck : Stuck (lexemes ((Scanner.tokens text).1.take k)) token.lexeme) :
      Verdict depth text (.error (.diagnosed (.rejection text token)))
  | refused {d : Diagnostic} (refusal : (Scanner.tokens text).2 = some d)
      (viable : Viable .expression (lexemes (Scanner.tokens text).1)) :
      Verdict depth text (.error (.diagnosed d))
  | tooDeep (short : depth < Tree.ampleDepth text) : Verdict depth text (.error .tooDeep)

theorem Verdict.rejected_behind {depth : Nat} {text : Text} {found later : List Token}
    {token : Token} (tokens : (Scanner.tokens text).1 = found ++ token :: later)
    (viable : Viable .expression (lexemes found)) (stuck : Stuck (lexemes found) token.lexeme) :
    Verdict depth text (.error (.diagnosed (.rejection text token))) := by
  have before : (Scanner.tokens text).1.take found.length = found := by rw [tokens, List.take_left]
  refine .rejected (k := found.length) ?_ ?_ ?_
  · rw [tokens]
    simp
  · rw [before]
    exact viable
  · rw [before]
    exact stuck

theorem Scanner.length_tokens_le (text : Text) : (tokens text).1.length ≤ text.length + 1 :=
  length_ahead_le ⟨text, 0⟩

/-- A whole expression is one that the end of the text follows. -/
theorem Rule.whole_eq (depth : Nat) (c : Cursor) :
    whole depth c = match run depth .expression c with
      | .ok t after =>
          if after.current.kind = .endOfText then .ok t after
          else .error (after.rejection after.current) after
      | .error e after => .error e after := by
  rw [whole, bind_apply]
  cases run depth .expression c with
  | error e after => rfl
  | ok t after =>
      simp only [bind, EStateM.bind, get, getThe, MonadStateOf.get, EStateM.get]
      split <;> rfl

theorem Tree.parse_verdict (depth : Nat) (text : Text) : Verdict depth text (parse depth text) := by
  unfold parse
  cases started : Cursor.start text with
  | error e =>
      obtain ⟨d, rfl, tokens⟩ := Cursor.start_error started
      refine .refused (by rw [tokens]) ?_
      rw [tokens]
      exact viable_nil
  | ok c =>
      obtain ⟨rfl, tokens⟩ := Cursor.start_ok started
      have few := Scanner.length_tokens_le c.scanner.text
      have outcome := Rule.run_outcome depth .expression c (by rw [Cursor.Fits, tokens]; exact few)
      dsimp only
      rw [Rule.whole_eq]
      generalize Rule.run depth .expression c = r at outcome
      cases outcome with
      | @accepted found later t after split derived ends text ahead =>
          obtain ⟨more, head⟩ := after.ahead_head
          have rest : after.ahead.1 = later := by rw [ahead]
          rw [rest] at head
          rw [List.nil_append] at derived ends
          dsimp only
          by_cases last : after.current.kind = .endOfText
          · rw [if_pos last]
            have final := Cursor.ahead_last last
            rw [ahead] at final
            obtain ⟨rfl, refusal⟩ := Prod.mk.inj final
            refine .accepted ?_ last derived
            rw [← tokens, ← split, ← refusal]
          · rw [if_neg last, Cursor.rejection, text]
            rw [head] at ends
            refine .rejected_behind (by rw [← tokens, split, head]) ⟨[], t, ?_⟩ ?_
            · rw [List.append_nil]
              exact derived
            · exact derived.stuck ends last
      | rejected found later split viable bars =>
          exact .rejected_behind (by rw [← tokens, split]) viable bars.stuck
      | refused refusal viable =>
          rw [tokens] at refusal viable
          exact .refused refusal viable
      | tooDeep short =>
          refine .tooDeep ?_
          rw [tokens] at short
          simp only [Phrase.need, Rule.phrase, Phrase.rank, List.length_nil] at short
          rw [Tree.ampleDepth]
          omega

end Abacus
