/- # Parsing: acceptance and the first error

Two theorems about whole texts, both read off `Tree.parse_verdict`.

`Tree.parse_iff_derives`: where the nesting is not too deep, a text is parsed to a tree exactly if
all of it can be read as tokens and the grammar derives these with that tree; and no sequence of
lexemes has two trees.

`Tree.parse_error_iff_stuck`: a text is rejected at the first token behind which nothing could make
it an expression any more, and refused with the scanner only if all tokens before could still be
completed.  As a prefix of lexemes that can be completed can be completed itself
(`Viable.of_append`), there is at most one token to be rejected at (`stuck_unique`). -/
import Abacus.Proofs.Recognition

namespace Abacus
set_option autoImplicit false

open Token (Lexeme lexemes)

namespace Scanner

theorem tokens?_eq_ok_iff {text : Text} {found : List Token} :
    tokens? text = .ok found ↔ tokens text = (found, none) := by
  rw [tokens?]
  split
  · rename_i same
    rw [same]
    simp
  · rename_i same
    rw [same]
    simp

/-- The end of the text is the last token. -/
theorem tokens_last {text : Text} {k : Nat} {token : Token}
    (here : (tokens text).1[k]? = some token) (last : token.kind = .endOfText) :
    k + 1 = (tokens text).1.length ∧ (tokens text).2 = none := by
  rw [tokens_eq_ahead] at here ⊢
  have notValid : ¬ token.lexeme.Valid := fun valid => valid.kind_ne last
  rcases ahead_shape ⟨text, 0⟩ with ⟨found, stop, same, -, valid⟩ | ⟨found, d, same, -, valid⟩
  · rw [same] at here ⊢
    refine ⟨?_, rfl⟩
    rw [List.length_append, List.length_singleton]
    by_cases inside : k < found.length
    · rw [List.getElem?_append_left inside] at here
      exact absurd (valid token (List.mem_of_getElem? here)) notValid
    · have bound := (List.getElem?_eq_some_iff.mp here).1
      rw [List.length_append, List.length_singleton] at bound
      omega
  · rw [same] at here
    exact absurd (valid token (List.mem_of_getElem? here)) notValid

theorem tokens_refused {text : Text} {d : Diagnostic} (refusal : (tokens text).2 = some d) :
    ∃ start stop, d.Marks .lexical text start stop := by
  rw [tokens_eq_ahead] at refusal
  rcases ahead_shape ⟨text, 0⟩ with ⟨found, stop, same, -⟩ | ⟨found, d', same, lexical, -⟩
  · rw [same] at refusal
    cases refusal
  · rw [same] at refusal
    cases refusal
    exact lexical

theorem rejection_kind (text : Text) (token : Token) :
    (Diagnostic.rejection text token).kind = .invalidSyntax := by
  unfold Diagnostic.rejection
  split <;> rfl

/-- Two tokens of a text at different places give different rejections. -/
theorem rejection_injective {text : Text} {j k : Nat} {first second : Token}
    (atFirst : (tokens text).1[j]? = some first) (atSecond : (tokens text).1[k]? = some second)
    (same : Diagnostic.rejection text first = Diagnostic.rejection text second) : j = k := by
  have sources := congrArg (fun d => d.source.length) same
  by_cases last : first.kind = .endOfText <;> by_cases last' : second.kind = .endOfText
  · have := (tokens_last atFirst last).1
    have := (tokens_last atSecond last').1
    omega
  · simp [Diagnostic.rejection, last] at sources
  · simp [Diagnostic.rejection, last'] at sources
  · have starts : first.start = second.start := by
      have starts := congrArg Diagnostic.start same
      simp only [Diagnostic.rejection] at starts
      omega
    have sorted : (tokens text).1.Pairwise fun a b => a.start < b.start :=
      (ahead_sorted ⟨text, 0⟩).2
    rw [List.pairwise_iff_getElem] at sorted
    obtain ⟨inFirst, rfl⟩ := List.getElem?_eq_some_iff.mp atFirst
    obtain ⟨inSecond, rfl⟩ := List.getElem?_eq_some_iff.mp atSecond
    rcases Nat.lt_trichotomy j k with before | same | behind
    · have := sorted j k inFirst inSecond before
      omega
    · exact same
    · have := sorted k j inSecond inFirst behind
      omega

end Scanner

/-! ## Where a text gets stuck -/

theorem Viable.of_append {p : Phrase} {here more : List Lexeme} (viable : Viable p (here ++ more)) :
    Viable p here := by
  obtain ⟨later, t, derived⟩ := viable
  exact ⟨more ++ later, t, by rwa [List.append_assoc] at derived⟩

theorem Viable.take {p : Phrase} {tokens : List Token} {j k : Nat}
    (viable : Viable p (lexemes (tokens.take k))) (le : j ≤ k) :
    Viable p (lexemes (tokens.take j)) := by
  rw [← Nat.add_sub_of_le le, List.take_add, Token.lexemes_append] at viable
  exact viable.of_append

theorem stuck_iff {tokens : List Token} {k : Nat} {token : Token} (here : tokens[k]? = some token) :
    Stuck (lexemes (tokens.take k)) token.lexeme ↔
      if token.kind = .endOfText then ¬ ∃ t, Derives .expression (lexemes (tokens.take k)) t
      else ¬ Viable .expression (lexemes (tokens.take (k + 1))) := by
  rw [List.take_add_one, here, Token.lexemes_append]
  rfl

/-- A token that is not the end is no obstacle as long as more can be completed. -/
theorem not_stuck_of_viable {tokens : List Token} {j k : Nat} {token : Token}
    (here : tokens[j]? = some token) (going : token.kind ≠ .endOfText) (before : j < k)
    (viable : Viable .expression (lexemes (tokens.take k))) :
    ¬ Stuck (lexemes (tokens.take j)) token.lexeme := by
  rw [stuck_iff here, if_neg going, not_not]
  exact viable.take before

theorem not_stuck_of_derives {text : Text} {found : List Token} {stop : Token} {t : Tree} {k : Nat}
    {token : Token} (tokens : Scanner.tokens text = (found ++ [stop], none))
    (ends : stop.kind = .endOfText) (derived : Derives .expression (lexemes found) t)
    (here : (Scanner.tokens text).1[k]? = some token) :
    ¬ Stuck (lexemes ((Scanner.tokens text).1.take k)) token.lexeme := by
  have all : (Scanner.tokens text).1.take found.length = found := by rw [tokens, List.take_left]
  have size : (Scanner.tokens text).1.length = found.length + 1 := by rw [tokens]; simp
  by_cases last : token.kind = .endOfText
  · have final := (Scanner.tokens_last here last).1
    obtain rfl : k = found.length := by omega
    rw [stuck_iff here, if_pos last, all, not_not]
    exact ⟨t, derived⟩
  · have inside : k < found.length := by
      have bound := (List.getElem?_eq_some_iff.mp here).1
      rcases Nat.lt_or_eq_of_le (Nat.le_of_lt_succ (size ▸ bound)) with inside | rfl
      · exact inside
      · rw [tokens, List.getElem?_concat_length] at here
        cases here
        exact absurd ends last
    refine not_stuck_of_viable here last inside ⟨[], t, ?_⟩
    rwa [all, List.append_nil]

theorem not_stuck_of_refused {text : Text} {d : Diagnostic} {k : Nat} {token : Token}
    (refusal : (Scanner.tokens text).2 = some d)
    (viable : Viable .expression (lexemes (Scanner.tokens text).1))
    (here : (Scanner.tokens text).1[k]? = some token) :
    ¬ Stuck (lexemes ((Scanner.tokens text).1.take k)) token.lexeme := by
  have going : token.kind ≠ .endOfText := by
    intro last
    rw [(Scanner.tokens_last here last).2] at refusal
    cases refusal
  refine not_stuck_of_viable here going (List.getElem?_eq_some_iff.mp here).1 ?_
  rwa [List.take_length]

/-- There is at most one token that a text gets stuck at. -/
theorem stuck_unique {text : Text} {j k : Nat} {first second : Token}
    (atFirst : (Scanner.tokens text).1[j]? = some first)
    (atSecond : (Scanner.tokens text).1[k]? = some second)
    (viable : Viable .expression (lexemes ((Scanner.tokens text).1.take j)))
    (viable' : Viable .expression (lexemes ((Scanner.tokens text).1.take k)))
    (stuck : Stuck (lexemes ((Scanner.tokens text).1.take j)) first.lexeme)
    (stuck' : Stuck (lexemes ((Scanner.tokens text).1.take k)) second.lexeme) : j = k := by
  have inFirst := (List.getElem?_eq_some_iff.mp atFirst).1
  have inSecond := (List.getElem?_eq_some_iff.mp atSecond).1
  rcases Nat.lt_trichotomy j k with before | same | behind
  · refine absurd stuck (not_stuck_of_viable atFirst (fun last => ?_) before viable')
    have := (Scanner.tokens_last atFirst last).1
    omega
  · exact same
  · refine absurd stuck' (not_stuck_of_viable atSecond (fun last => ?_) behind viable)
    have := (Scanner.tokens_last atSecond last).1
    omega

/-! ## Acceptance -/

theorem Tree.derives_of_parse {depth : Nat} {text : Text} {t : Tree}
    (parsed : parse depth text = .ok t) :
    ∃ found stop, Scanner.tokens text = (found ++ [stop], none) ∧ stop.kind = .endOfText ∧
      Derives .expression (lexemes found) t := by
  have verdict := parse_verdict depth text
  rw [parsed] at verdict
  cases verdict with
  | accepted tokens last derived => exact ⟨_, _, tokens, last, derived⟩

/-- What the grammar derives is parsed, if its nesting is not too deep. -/
theorem Tree.parse_of_derives {depth : Nat} {text : Text} {t : Tree} {found : List Token}
    {stop : Token} (shallow : parse depth text ≠ .error .tooDeep)
    (tokens : Scanner.tokens text = (found ++ [stop], none)) (last : stop.kind = .endOfText)
    (derived : Derives .expression (lexemes found) t) : parse depth text = .ok t := by
  have verdict := parse_verdict depth text
  generalize parse depth text = r at shallow verdict
  cases verdict with
  | @accepted found' stop' t' tokens' last' derived' =>
      rw [tokens] at tokens'
      obtain ⟨rfl, -⟩ := List.append_inj' (Prod.mk.inj tokens').1 rfl
      rw [derived.tree_unique derived']
  | rejected here viable stuck =>
      exact absurd stuck (not_stuck_of_derives tokens last derived here)
  | refused refusal viable =>
      rw [tokens] at refusal
      cases refusal
  | tooDeep short => exact absurd rfl shallow

theorem Tree.parse_ample {depth : Nat} {text : Text} (ample : ampleDepth text ≤ depth) :
    parse depth text ≠ .error .tooDeep := by
  intro deep
  have verdict := parse_verdict depth text
  rw [deep] at verdict
  cases verdict with
  | tooDeep short => omega

/-- Where the nesting is not too deep, which it never is with an ample allowance, a text is parsed
to the tree that the grammar derives from its tokens, and to nothing else.  The grammar is
unambiguous. -/
theorem Tree.parse_iff_derives (text : Text) (t : Tree) :
    (∀ depth, parse depth text ≠ .error .tooDeep →
      (parse depth text = .ok t ↔
        ∃ found stop, Scanner.tokens? text = .ok (found ++ [stop]) ∧ stop.kind = .endOfText ∧
          Derives .expression (lexemes found) t)) ∧
    (∀ depth, ampleDepth text ≤ depth → parse depth text ≠ .error .tooDeep) ∧
    ∀ p u s s', Derives p u s → Derives p u s' → s = s' := by
  refine ⟨fun depth shallow => ⟨fun parsed => ?_, ?_⟩, fun depth ample => parse_ample ample, ?_⟩
  · obtain ⟨found, stop, tokens, last, derived⟩ := derives_of_parse parsed
    exact ⟨found, stop, Scanner.tokens?_eq_ok_iff.mpr tokens, last, derived⟩
  · rintro ⟨found, stop, read, last, derived⟩
    exact parse_of_derives shallow (Scanner.tokens?_eq_ok_iff.mp read) last derived
  · exact fun p u s s' first second => first.tree_unique second

/-- A chain in parentheses on the right of an assignment. -/
theorem parse_iff_derives_assignment :
    Tree.parse 20 "x = (1 - y) / 2".toList ≠ .error .tooDeep ∧
      ∃ found stop, Scanner.tokens? "x = (1 - y) / 2".toList = .ok (found ++ [stop]) ∧
        stop.kind = .endOfText ∧
        Derives .expression (lexemes found)
          (.assignment (.reference "x".toList)
            (.binary (.symbol .slash)
              (.binary (.symbol .minus) (.literal (.int 1)) (.reference "y".toList))
              (.literal (.int 2)))) := by
  have parsed : Tree.parse 20 "x = (1 - y) / 2".toList =
      .ok (.assignment (.reference "x".toList)
        (.binary (.symbol .slash)
          (.binary (.symbol .minus) (.literal (.int 1)) (.reference "y".toList))
          (.literal (.int 2)))) := by cbv
  have shallow : Tree.parse 20 "x = (1 - y) / 2".toList ≠ .error .tooDeep := by
    rw [parsed]
    simp
  exact ⟨shallow, ((Tree.parse_iff_derives _ _).1 20 shallow).mp parsed⟩

/-! ## The first error -/

namespace Verdict

variable {depth : Nat} {text : Text} {r : Except Failure Tree}

/-- A text is rejected at the token that it gets stuck at. -/
theorem rejected_iff (verdict : Verdict depth text r) (shallow : r ≠ .error .tooDeep) {k : Nat}
    {token : Token} (here : (Scanner.tokens text).1[k]? = some token) :
    r = .error (.diagnosed (.rejection text token)) ↔
      Viable .expression (lexemes ((Scanner.tokens text).1.take k)) ∧
        Stuck (lexemes ((Scanner.tokens text).1.take k)) token.lexeme := by
  cases verdict with
  | accepted tokens last derived =>
      refine ⟨fun same => (by cases same), fun ⟨_, stuck⟩ => ?_⟩
      exact absurd stuck (not_stuck_of_derives tokens last derived here)
  | @rejected j first atFirst viable stuck =>
      constructor
      · intro same
        have rejections : Diagnostic.rejection text first = .rejection text token := by
          simpa using same
        obtain rfl := Scanner.rejection_injective atFirst here rejections
        rw [atFirst] at here
        cases here
        exact ⟨viable, stuck⟩
      · rintro ⟨viable', stuck'⟩
        obtain rfl := stuck_unique atFirst here viable viable' stuck stuck'
        rw [atFirst] at here
        cases here
        rfl
  | refused refusal viable =>
      refine ⟨fun same => ?_, fun ⟨_, stuck⟩ => ?_⟩
      · obtain ⟨start, stop, lexical⟩ := Scanner.tokens_refused refusal
        cases same
        have kind := lexical.kind
        rw [Scanner.rejection_kind] at kind
        cases kind
      · exact absurd stuck (not_stuck_of_refused refusal viable here)
  | tooDeep short => exact absurd rfl shallow

/-- The refusal of the scanner is met unless a token is rejected before it. -/
theorem refused_iff (verdict : Verdict depth text r) (shallow : r ≠ .error .tooDeep)
    {d : Diagnostic} (lexical : d.kind = .lexical) :
    r = .error (.diagnosed d) ↔
      (Scanner.tokens text).2 = some d ∧ Viable .expression (lexemes (Scanner.tokens text).1) := by
  cases verdict with
  | accepted tokens last derived =>
      refine ⟨fun same => (by cases same), fun ⟨refusal, _⟩ => ?_⟩
      rw [tokens] at refusal
      cases refusal
  | rejected here viable stuck =>
      refine ⟨fun same => ?_, fun ⟨refusal, viable'⟩ => ?_⟩
      · cases same
        rw [Scanner.rejection_kind] at lexical
        cases lexical
      · exact absurd stuck (not_stuck_of_refused refusal viable' here)
  | refused refusal viable =>
      constructor
      · intro same
        cases same
        exact ⟨refusal, viable⟩
      · rintro ⟨refusal', -⟩
        rw [refusal] at refusal'
        cases refusal'
        rfl
  | tooDeep short => exact absurd rfl shallow

end Verdict

/-- Where the nesting is not too deep, a text fails with the rejection of one of its tokens or with
the refusal of the scanner.  It is rejected at the token up to which, and not including which, it
could be completed (at its end: if it could be completed and is not complete), and refused exactly
if all tokens before the refusal could be completed.  What is marked is the token, and for the end
of the text one blank that is added to it. -/
theorem Tree.parse_error_iff_stuck (depth : Nat) (text : Text)
    (shallow : parse depth text ≠ .error .tooDeep) :
    (∀ e, parse depth text = .error e →
      (∃ (k : Nat) (token : Token), (Scanner.tokens text).1[k]? = some token ∧
        e = .diagnosed (.rejection text token)) ∨
      ∃ d, (Scanner.tokens text).2 = some d ∧
        (∃ start stop, d.Marks .lexical text start stop) ∧ e = .diagnosed d) ∧
    (∀ token : Token,
      if token.kind = .endOfText then
        (Diagnostic.rejection text token).Marks .invalidSyntax (text ++ [' ']) text.length
          (text.length + 1)
      else (Diagnostic.rejection text token).Marks .invalidSyntax text token.start token.stop) ∧
    (∀ (k : Nat) (token : Token), (Scanner.tokens text).1[k]? = some token →
      (parse depth text = .error (.diagnosed (.rejection text token)) ↔
        Viable .expression (lexemes ((Scanner.tokens text).1.take k)) ∧
          if token.kind = .endOfText then
            ¬ ∃ t, Derives .expression (lexemes ((Scanner.tokens text).1.take k)) t
          else ¬ Viable .expression (lexemes ((Scanner.tokens text).1.take (k + 1))))) ∧
    ∀ d : Diagnostic, d.kind = .lexical →
      (parse depth text = .error (.diagnosed d) ↔
        (Scanner.tokens text).2 = some d ∧
          Viable .expression (lexemes (Scanner.tokens text).1)) := by
  have verdict := parse_verdict depth text
  refine ⟨fun e failed => ?_, fun token => ?_, fun k token here => ?_, fun d lexical => ?_⟩
  · rw [failed] at verdict shallow
    cases verdict with
    | rejected here viable stuck => exact .inl ⟨_, _, here, rfl⟩
    | refused refusal viable => exact .inr ⟨_, refusal, Scanner.tokens_refused refusal, rfl⟩
    | tooDeep short => exact absurd rfl shallow
  · split
    · rename_i ends
      exact Diagnostic.rejection_marks_end text ends
    · rename_i going
      exact Diagnostic.rejection_marks_token text going
  · rw [← stuck_iff here]
    exact verdict.rejected_iff shallow here
  · exact verdict.refused_iff shallow lexical

/-- The character that is no token comes too late: the second integer is rejected. -/
theorem parse_error_iff_stuck_second_integer :
    Tree.parse 20 "1 2 &".toList ≠ .error .tooDeep ∧
      Viable .expression [.integer 1] ∧ ¬ Viable .expression [.integer 1, .integer 2] := by
  have parsed : Tree.parse 20 "1 2 &".toList =
      .error (.diagnosed (.rejection "1 2 &".toList ⟨.integer 2, 2, 3⟩)) := by cbv
  have shallow : Tree.parse 20 "1 2 &".toList ≠ .error .tooDeep := by
    rw [parsed]
    simp
  have tokens : (Scanner.tokens "1 2 &".toList).1 = [⟨.integer 1, 0, 1⟩, ⟨.integer 2, 2, 3⟩] := by
    decide +kernel
  have stuck := (Tree.parse_error_iff_stuck 20 "1 2 &".toList shallow).2.2.1 1 ⟨.integer 2, 2, 3⟩
    (by rw [tokens]; rfl)
  rw [tokens] at stuck
  obtain ⟨viable, notViable⟩ := stuck.mp parsed
  exact ⟨shallow, viable, notViable⟩

end Abacus
