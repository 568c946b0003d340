/- # Outcomes of the rules

A rule of the parser, started at a cursor, accepts a derivation at the front of the tokens ahead,
rejects a token, comes upon a refusal of the scanner, or runs out of its allowance.  `Outcome` says
what each of these means for the grammar:

* accepted: the lexemes read are derived with the tree that is returned, and could not have been
  carried on;
* rejected: the lexemes in front of the token can be completed (`Viable`), and no derivation goes on
  with the token (`Bars`);
* refused: all lexemes in front of the refusal can be completed;
* too deep: the allowance was smaller than what the tokens ahead may need.

Outcomes are put together here, apart from any rule: `Outcome.step` moves on by a token that belongs
to the phrase, `Outcome.embed` hands over to the rule of another phrase, and `Outcome.link` reads an
operand and then the rest of its chain. -/
import Abacus.Proofs.Derivation
import Abacus.Proofs.TokenStream

namespace Abacus
set_option autoImplicit false

open Token (Lexeme lexemes)

/-- Some more lexemes make these a derivation from the phrase. -/
def Viable (p : Phrase) (here : List Lexeme) : Prop := ∃ more t, Derives p (here ++ more) t

/-- Behind the lexemes `here`, the lexeme `l` leaves no derivation from the phrase. -/
def Bars (p : Phrase) (here : List Lexeme) (l : Lexeme) : Prop :=
  ∀ u t v w, Derives p u t → Ends p u v → u ++ v ≠ here ++ l :: w

/-- How many calls nest between a chain and an atom. -/
def Level.rank : Level → Nat
  | additive => 4
  | multiplicative => 3

/-- How many calls nest between a phrase and an atom. -/
def Phrase.rank : Phrase → Nat
  | expression => 6
  | assignment => 5
  | chain level | rest level _ => level.rank
  | unary => 2
  | atom => 1

/-- An allowance that suffices for a phrase with so many tokens ahead. -/
def Phrase.need (p : Phrase) (tokens : Nat) : Nat := 6 * tokens + p.rank

/-- What a rule for the phrase `p` comes to, of which the lexemes `taken` were read before the
cursor. -/
inductive Outcome (p : Phrase) (depth : Nat) (taken : List Lexeme) (c : Cursor) :
    EStateM.Result Failure Cursor Tree → Prop
  | accepted (found later : List Token) {t : Tree} {after : Cursor}
      (split : c.ahead.1 = found ++ later)
      (derived : Derives p (taken ++ lexemes found) t)
      (ends : Ends p (taken ++ lexemes found) (lexemes later))
      (text : after.scanner.text = c.scanner.text) (ahead : after.ahead = (later, c.ahead.2)) :
      Outcome p depth taken c (.ok t after)
  | rejected (found later : List Token) {token : Token} {after : Cursor}
      (split : c.ahead.1 = found ++ token :: later)
      (viable : Viable p (taken ++ lexemes found))
      (bars : Bars p (taken ++ lexemes found) token.lexeme) :
      Outcome p depth taken c (.error (.diagnosed (.rejection c.scanner.text token)) after)
  | refused {d : Diagnostic} {after : Cursor} (refusal : c.ahead.2 = some d)
      (viable : Viable p (taken ++ lexemes c.ahead.1)) :
      Outcome p depth taken c (.error (.diagnosed d) after)
  | tooDeep {after : Cursor} (short : depth < p.need (taken.length + c.ahead.1.length)) :
      Outcome p depth taken c (.error .tooDeep after)

/-- What an operation and another one behind it come to. -/
theorem bind_apply {σ α β : Type} (x : EStateM Failure σ α) (f : α → EStateM Failure σ β) (s : σ) :
    (x >>= f) s = match x s with
      | .ok a after => f a after
      | .error e after => .error e after := by
  simp only [bind, EStateM.bind]
  cases x s <;> rfl

def remains {σ α : Type} : EStateM.Result Failure σ α → σ
  | .ok _ s => s
  | .error _ s => s

namespace Outcome

variable {p q : Phrase} {depth : Nat} {taken : List Lexeme} {c : Cursor}

/-! ## Sequencing -/

/-- Tokens that were read count as ahead again. -/
theorem unread {after : Cursor} {r : EStateM.Result Failure Cursor Tree} {read : List Token}
    (text : after.scanner.text = c.scanner.text) (tokens : c.ahead.1 = read ++ after.ahead.1)
    (refusal : c.ahead.2 = after.ahead.2)
    (outcome : Outcome p depth (taken ++ lexemes read) after r) : Outcome p depth taken c r := by
  cases outcome with
  | accepted found later split derived ends same rest =>
      refine .accepted (read ++ found) later (by rw [tokens, split, List.append_assoc]) ?_ ?_
        (same.trans text) (by rw [rest, refusal])
      · simpa using derived
      · simpa using ends
  | rejected found later split viable bars =>
      rw [text]
      refine .rejected (read ++ found) later (by rw [tokens, split, List.append_assoc]) ?_ ?_
      · simpa using viable
      · simpa using bars
  | refused refused viable =>
      refine .refused (by rw [refusal, refused]) ?_
      rw [tokens]
      simpa using viable
  | tooDeep short =>
      refine .tooDeep ?_
      rw [tokens]
      simpa [Nat.add_assoc] using short

/-- Moves on by a token that belongs to the phrase. -/
theorem step {next : Cursor.Action Tree} (going : c.current.kind ≠ .endOfText)
    (viable : Viable p (taken ++ [c.current.lexeme]))
    (later : ∀ after, after.scanner.text = c.scanner.text →
      c.ahead = (c.current :: after.ahead.1, after.ahead.2) →
      Outcome p depth (taken ++ [c.current.lexeme]) after (next after)) :
    Outcome p depth taken c ((Cursor.advance >>= fun _ => next) c) := by
  rcases c.advance_cases going with ⟨after, moved, text, ahead⟩ | ⟨d, after, moved, ahead⟩
  · have same : (Cursor.advance >>= fun _ => next) c = next after := by
      rw [bind_apply, moved]
    rw [same]
    have tokens : c.ahead.1 = [c.current] ++ after.ahead.1 := by rw [ahead]; rfl
    exact .unread text tokens (by rw [ahead]) (later after text ahead)
  · have same : (Cursor.advance >>= fun _ => next) c = .error (.diagnosed d) after := by
      rw [bind_apply, moved]
    rw [same]
    refine .refused (by rw [ahead]) ?_
    rw [ahead]
    exact viable

/-- Hands over to the rule of another phrase, which goes on to the end of this one. -/
theorem embed {action : Cursor.Action Tree} (f : Tree → Tree)
    (inner : Outcome q depth [] c (action c))
    (accept : ∀ found later t, c.ahead.1 = found ++ later → Derives q (lexemes found) t →
      Ends q (lexemes found) (lexemes later) →
      Derives p (taken ++ lexemes found) (f t) ∧
        Ends p (taken ++ lexemes found) (lexemes later))
    (viable : ∀ here, Viable q here → Viable p (taken ++ here))
    (bars : ∀ found token later, c.ahead.1 = found ++ token :: later →
      Bars q (lexemes found) token.lexeme → Bars p (taken ++ lexemes found) token.lexeme)
    (deeper : q.rank + 1 ≤ p.rank + 6 * taken.length) :
    Outcome p (depth + 1) taken c ((action >>= fun t => pure (f t)) c) := by
  rw [bind_apply]
  generalize action c = r at inner
  cases inner with
  | accepted found later split derived ends text ahead =>
      obtain ⟨derived, ends⟩ := accept found later _ split derived ends
      exact .accepted found later split derived ends text ahead
  | rejected found later split viable' bars' =>
      exact .rejected found later split (viable _ viable') (bars found _ later split bars')
  | refused refusal viable' => exact .refused refusal (viable _ viable')
  | tooDeep short =>
      refine .tooDeep ?_
      simp only [Phrase.need, List.length_nil] at short ⊢
      omega

/-- As `embed`, for a rule that gives the tree itself. -/
theorem embed_same {action : Cursor.Action Tree} (inner : Outcome q depth [] c (action c))
    (accept : ∀ found later t, c.ahead.1 = found ++ later → Derives q (lexemes found) t →
      Ends q (lexemes found) (lexemes later) →
      Derives p (lexemes found) t ∧ Ends p (lexemes found) (lexemes later))
    (viable : ∀ here, Viable q here → Viable p here)
    (bars : ∀ found token later, c.ahead.1 = found ++ token :: later →
      Bars q (lexemes found) token.lexeme → Bars p (lexemes found) token.lexeme)
    (deeper : q.rank + 1 ≤ p.rank) :
    Outcome p (depth + 1) [] c (action c) := by
  have same : (action >>= fun t => pure (id t)) c = action c := by
    rw [bind_apply]
    cases action c <;> rfl
  rw [← same]
  exact embed id inner accept viable bars deeper

end Outcome

/-! ## Chains -/

/-- The lexemes that a phrase takes before an operand and the rest of a chain, and what becomes of
the tree of this operand. -/
structure Opens (p : Phrase) (taken : List Lexeme) (level : Level) (join : Tree → Tree) : Prop where
  intro : ∀ {u v r t}, Derives level.operand u r → Derives (.rest level (join r)) v t →
    Derives p (taken ++ (u ++ v)) t
  elim : ∀ {u v w t}, Derives p u t → Ends p u v → u ++ v = taken ++ w →
    ∃ a b r, u = taken ++ (a ++ b) ∧ Derives level.operand a r ∧ Derives (.rest level (join r)) b t
  ends : ∀ {u v}, Ends p u v ↔ ∀ l more, v = l :: more → level.extends l.kind = false

theorem opens_chain (level : Level) : Opens (.chain level) [] level id := by
  refine ⟨fun operand later => ?_, fun derived _ _ => ?_, Ends.chain_iff⟩
  · have derived := Derives.chain operand later
    exact derived
  · cases derived with
    | chain operand later => exact ⟨_, _, _, rfl, operand, later⟩

theorem opens_rest (level : Level) (left : Tree) {l : Lexeme} (operator : level.isOperator l.kind) :
    Opens (.rest level left) [l] level (.binary l.kind left) := by
  refine ⟨fun operand later => ?_, fun derived ends same => ?_, Ends.rest_iff⟩
  · have derived := Derives.more operator operand later
    exact derived
  · cases derived with
    | done =>
        have stops : level.extends l.kind = false := ends.operator _ _ same
        rw [level.extends_operator operator] at stops
        cases stops
    | more operator' operand later =>
        obtain ⟨rfl, -⟩ := List.cons.inj same
        exact ⟨_, _, _, rfl, operand, later⟩

theorem Level.rank_eq (level : Level) : level.rank = level.operand.rank + 1 := by
  cases level <;> rfl

/-- Reads an operand and then the rest of its chain. -/
theorem Outcome.link {p : Phrase} {depth : Nat} {taken : List Lexeme} {level : Level}
    {join : Tree → Tree} {c : Cursor} {operand : Cursor.Action Tree}
    {next : Tree → Cursor.Action Tree} (opens : Opens p taken level join)
    (rank : p.rank = level.operand.rank + 1)
    (first : Outcome level.operand depth [] c (operand c))
    (later : ∀ r after, after.scanner.text = c.scanner.text →
      after.ahead.1.length ≤ c.ahead.1.length →
      level.operand.extends after.current.kind = false →
      Outcome (.rest level (join r)) (depth + 1) [] after (next r after)) :
    Outcome p (depth + 1) taken c ((operand >>= next) c) := by
  rw [bind_apply]
  generalize operand c = r at first
  cases first with
  | rejected found behind split viable bars =>
      refine .rejected found behind split ?_ ?_
      · obtain ⟨more, t, derived⟩ := viable
        refine ⟨more, join t, ?_⟩
        simpa using opens.intro derived .done
      · intro u t v w derived ends same
        rw [List.append_assoc] at same
        obtain ⟨a, b, r, rfl, operand, rest⟩ := opens.elim derived ends same
        rw [List.append_assoc, List.append_assoc] at same
        exact bars a r (b ++ v) w operand (rest.operand_ends (opens.ends.mp ends))
          (List.append_cancel_left same)
  | refused refusal viable =>
      obtain ⟨more, t, derived⟩ := viable
      refine .refused refusal ⟨more, join t, ?_⟩
      simpa using opens.intro derived .done
  | tooDeep short =>
      refine .tooDeep ?_
      simp only [Phrase.need, List.length_nil] at short ⊢
      omega
  | @accepted found behind r after split derived ends text ahead =>
      have tokens : after.ahead.1 = behind := by rw [ahead]
      have refusal : after.ahead.2 = c.ahead.2 := by rw [ahead]
      have fewer : after.ahead.1.length ≤ c.ahead.1.length := by
        rw [tokens, split, List.length_append]
        omega
      have stops : level.operand.extends after.current.kind = false := by
        obtain ⟨more, head⟩ := after.ahead_head
        refine ends.operator after.current.lexeme (lexemes more) ?_
        rw [← tokens, head]
        rfl
      have rest := later r after text fewer stops
      rw [List.nil_append] at derived ends
      dsimp only
      generalize next r after = result at rest
      cases rest with
      | accepted found' behind' split' derived' ends' text' ahead' =>
          rw [tokens] at split'
          refine .accepted (found ++ found') behind'
            (by rw [split, split', List.append_assoc]) ?_ ?_ (text'.trans text)
            (by rw [ahead', refusal])
          · simpa using opens.intro derived derived'
          · exact opens.ends.mpr ends'.operator
      | @rejected found' behind' token _ split' viable bars =>
          rw [tokens] at split'
          rw [text]
          refine .rejected (found ++ found') behind'
            (by rw [split, split', List.append_assoc]) ?_ ?_
          · obtain ⟨more, t, derived'⟩ := viable
            refine ⟨more, t, ?_⟩
            simpa using opens.intro derived derived'
          · intro u t v w derivedU endsU same
            rw [List.append_assoc] at same
            obtain ⟨a, b, r', rfl, operand, rest⟩ := opens.elim derivedU endsU same
            rw [List.append_assoc, List.append_assoc] at same
            have cut := List.append_cancel_left same
            rw [Token.lexemes_append, List.append_assoc] at cut
            -- The operand read is the one of the derivation, since neither could be longer.
            have shared : Ends level.operand (lexemes found)
                (lexemes found' ++ token.lexeme :: w) := by
              rw [split'] at ends
              rw [Token.lexemes_append, Token.lexemes_cons] at ends
              exact ends.of_shared w
            obtain ⟨rfl, rfl⟩ := operand.unique derived cut
              (rest.operand_ends (opens.ends.mp endsU)) shared
            exact bars b t v w rest (Ends.rest_iff.mpr (opens.ends.mp endsU))
              (List.append_cancel_left cut)
      | refused refused viable =>
          obtain ⟨more, t, derived'⟩ := viable
          refine .refused (by rw [← refusal, refused]) ⟨more, t, ?_⟩
          rw [split, ← tokens]
          simpa using opens.intro derived derived'
      | tooDeep short =>
          refine .tooDeep ?_
          change depth + 1 < 6 * (0 + after.ahead.1.length) + level.rank at short
          rw [level.rank_eq] at short
          rw [Phrase.need]
          omega

end Abacus
