/- # Well-formed trees

The type of trees holds much that no text stands for.  The trees of texts are well formed
(`Tree.wellFormed_of_parse`): signs and operators stand where they belong, targets are names, names
are made of letters, and literals are whole numbers that can be written.  They are never higher than
their text is long (`Derives.height_le`).

A well-formed tree fails in evaluation for few reasons only.  `Tree.Trouble` lists them, each with
the part of the tree that is to blame: evaluation came to this part (`Tree.Reaches`) with variables
under which it has no value.  That a tree is malformed is not among them.

The main result, `Tree.interpret_never_malformed`, says this of texts. -/
import Abacus.Evaluation
import Abacus.Proofs.Writing

namespace Abacus
set_option autoImplicit false

open Token (Lexeme lexemes)

namespace Tree

/-- The trees that texts stand for. -/
def WellFormed : Tree → Prop
  | literal value => ∃ n : Nat, value = .int n ∧ (Text.ofNat n).length ≤ maxDigits
  | reference name => name ≠ [] ∧ ∀ c ∈ name, c.isAlpha
  | unary operator operand =>
      (operator = .symbol .plus ∨ operator = .symbol .minus) ∧ operand.WellFormed
  | binary operator left right =>
      (operator = .symbol .plus ∨ operator = .symbol .minus ∨ operator = .symbol .star ∨
        operator = .symbol .slash) ∧ left.WellFormed ∧ right.WellFormed
  | assignment target value =>
      (∃ name, target = .reference name) ∧ target.WellFormed ∧ value.WellFormed
  | stray _ => False

/-! ## Trees of texts -/

theorem Written.wellFormed {t : Tree} {w : List Lexeme} (written : t.Written w)
    (valid : ∀ l ∈ w, l.Valid) : t.WellFormed := by
  induction written with
  | @literal n =>
      have few : (Lexeme.integer n).Valid := valid _ (by simp)
      exact ⟨n, rfl, (Nat.length_toDigits_le_iff (by decide) (by decide)).mpr few⟩
  | @reference name => exact valid (.identifier name) (by simp)
  | unary operator operand ih =>
      refine ⟨?_, ih fun l member => valid l (by simp [member])⟩
      simpa only [Rule.isSign, Bool.or_eq_true, beq_iff_eq] using operator
  | @binary l left right u v level operator first second ihFirst ihSecond =>
      refine ⟨?_, ihFirst fun l member => valid l (by simp [member]),
        ihSecond fun l member => valid l (by simp [member])⟩
      cases level <;>
        simp only [Level.isOperator, Rule.isSign, Rule.isScale, Bool.or_eq_true,
          beq_iff_eq] at operator <;>
        tauto
  | @assignment name t u value ih =>
      exact ⟨⟨name, rfl⟩, valid (.identifier name) (by simp),
        ih fun l member => valid l (by simp [member])⟩

theorem wellFormed_of_parse {depth : Nat} {text : Text} {t : Tree}
    (parsed : parse depth text = .ok t) : t.WellFormed := by
  obtain ⟨w, written, valid⟩ := writable_of_parse parsed
  exact written.wellFormed valid

end Tree

/-- The height of the tree of the operands so far, where a phrase has some. -/
def Phrase.height : Phrase → Nat
  | rest _ sofar => sofar.height
  | _ => 0

theorem Level.operand_height (level : Level) : level.operand.height = 0 := by
  cases level <;> rfl

/-- Every lexeme raises a tree by one level at most. -/
theorem Derives.height_le {p : Phrase} {u : List Lexeme} {t : Tree} (derived : Derives p u t) :
    t.height ≤ p.height + u.length := by
  induction derived with
  | expression _ ih | additive _ ih | atom _ ih => exact ih
  | assign value ih =>
      simp only [Phrase.height, Tree.height, List.length_cons] at ih ⊢
      omega
  | @chain level u v first t operand later ihOperand ihLater =>
      rw [level.operand_height] at ihOperand
      simp only [Phrase.height, List.length_append] at ihLater ⊢
      omega
  | done => exact Nat.le_refl _
  | @more level l u v left right t operator operand later ihOperand ihLater =>
      rw [level.operand_height] at ihOperand
      simp only [Phrase.height, Tree.height, List.length_cons, List.length_append] at ihLater ⊢
      omega
  | sign operator operand ih =>
      simp only [Phrase.height, Tree.height, List.length_cons] at ih ⊢
      omega
  | integer | identifier => exact Nat.le_refl _
  | parentheses inner ih =>
      simp only [Phrase.height, List.length_cons, List.length_append] at ih ⊢
      omega

/-- An allowance that parsing a text never uses up is enough for its tree. -/
theorem Tree.height_le_ampleDepth {depth : Nat} {text : Text} {t : Tree}
    (parsed : parse depth text = .ok t) : t.height ≤ ampleDepth text := by
  obtain ⟨found, stop, tokens, -, derived⟩ := derives_of_parse parsed
  have few := Scanner.length_tokens_le text
  have low := derived.height_le
  rw [tokens, List.length_append, List.length_singleton] at few
  simp only [Phrase.height, Token.length_lexemes] at low
  rw [ampleDepth]
  omega

/-! ## What evaluation fails with -/

namespace Number

theorem within_error {fault : Fault} {x : Double} {e : Failure}
    (failed : within fault x = .error e) : e = .internal fault := by
  cases x <;> cases failed
  rfl

theorem toDouble_error {x : Number} {e : Failure} (failed : x.toDouble = .error e) :
    e = .internal .integerTooLarge := by
  cases x with
  | float x => cases failed
  | int i => exact within_error failed

/-- Rounding two operands fails if one of them is too large. -/
theorem doubles_error {x y : Number} {double : Double → Double → Double} {e : Failure}
    (failed : (match x.toDouble, y.toDouble with
      | .ok a, .ok b => .ok (.float (double a b))
      | .error e, _ => .error e
      | _, .error e => .error e : Except Failure Number) = .error e) :
    e = .internal .integerTooLarge := by
  cases first : x.toDouble with
  | error e' =>
      rw [first] at failed
      cases failed
      exact toDouble_error first
  | ok a =>
      cases second : y.toDouble with
      | error e' =>
          rw [first, second] at failed
          cases failed
          exact toDouble_error second
      | ok b =>
          rw [first, second] at failed
          cases failed

theorem combine_error {whole : Int → Int → Int} {double : Double → Double → Double}
    {x y : Number} {e : Failure} (failed : combine whole double x y = .error e) :
    e = .internal .integerTooLarge := by
  unfold combine at failed
  split at failed
  · cases failed
  · exact doubles_error failed

theorem writable_iff {i : Int} : writable i ↔ (Text.ofNat i.natAbs).length ≤ maxDigits := by
  rw [Text.ofNat, writable, Nat.length_toDigits_le_iff (by decide) (by decide)]
  -- no power of this size is to be evaluated
  generalize maxDigits = digits
  exact decide_eq_true_iff

/-- A number without a text is a whole number with too many digits. -/
theorem long_of_text?_eq_none {x : Number} (unwritten : x.text? = none) :
    ∃ i : Int, x = .int i ∧ maxDigits < (Text.ofNat i.natAbs).length := by
  cases x with
  | float x => cases unwritten
  | int i =>
      refine ⟨i, rfl, Nat.lt_of_not_le fun few => ?_⟩
      rw [text?, if_pos (writable_iff.mpr few)] at unwritten
      cases unwritten

end Number

namespace Tree

/-- Why an operation has no result on two numbers. -/
inductive Barred : Token.Kind → Number → Number → Failure → Prop
  | tooLarge {operator : Token.Kind} {x y : Number} :
      Barred operator x y (.internal .integerTooLarge)
  | quotientTooLarge {i j : Int} :
      Barred (.symbol .slash) (.int i) (.int j) (.internal .quotientTooLarge)
  | zeroDivisor {x y : Number} {shown : Text} (zero : y.isZero) (text : x.text? = some shown) :
      Barred (.symbol .slash) x y (.diagnosed (.divisionByZero x shown))
  | longDividend {i : Int} {y : Number} (zero : y.isZero)
      (long : maxDigits < (Text.ofNat i.natAbs).length) :
      Barred (.symbol .slash) (.int i) y (.internal .textTooLong)

theorem div_barred {x y : Number} {e : Failure} (failed : x.div y = .error e) :
    Barred (.symbol .slash) x y e := by
  unfold Number.div at failed
  split at failed
  · rename_i zero
    cases failed
    unfold Number.divisionFailure
    split
    · rename_i shown text
      exact .zeroDivisor zero text
    · rename_i unwritten
      obtain ⟨i, rfl, long⟩ := Number.long_of_text?_eq_none unwritten
      exact .longDividend zero long
  · split at failed
    · unfold Number.divInt at failed
      split at failed
      · cases failed
      · cases rounded : Number.within .quotientTooLarge (Double.ofQuotient _ _) with
        | ok value =>
            rw [rounded] at failed
            cases failed
        | error e' =>
            rw [rounded] at failed
            cases failed
            rw [Number.within_error rounded]
            exact .quotientTooLarge
    · rw [Number.doubles_error failed]
      exact .tooLarge

theorem apply_barred {operator : Token.Kind} {x y : Number} {e : Failure}
    (arithmetic : operator = .symbol .plus ∨ operator = .symbol .minus ∨
      operator = .symbol .star ∨ operator = .symbol .slash)
    (failed : apply operator x y = .error e) : Barred operator x y e := by
  rcases arithmetic with rfl | rfl | rfl | rfl
  · rw [Number.combine_error failed]
    exact .tooLarge
  · rw [Number.combine_error failed]
    exact .tooLarge
  · rw [Number.combine_error failed]
    exact .tooLarge
  · exact div_barred failed

/-- Evaluating a tree comes to evaluating a part of it: `Reaches depth t env depth' part env'` says
which allowance and which variables are left then. -/
inductive Reaches : Nat → Tree → Environment → Nat → Tree → Environment → Prop
  | here {depth : Nat} {t : Tree} {env : Environment} : Reaches depth t env depth t env
  | operand {depth depth' : Nat} {operator : Token.Kind} {operand part : Tree}
      {env env' : Environment} (within : Reaches depth operand env depth' part env') :
      Reaches (depth + 1) (.unary operator operand) env depth' part env'
  | left {depth depth' : Nat} {operator : Token.Kind} {left right part : Tree}
      {env env' : Environment} (within : Reaches depth left env depth' part env') :
      Reaches (depth + 1) (.binary operator left right) env depth' part env'
  | right {depth depth' : Nat} {operator : Token.Kind} {left right part : Tree} {x : Number}
      {env middle env' : Environment} (first : evaluate depth left env = .ok x middle)
      (within : Reaches depth right middle depth' part env') :
      Reaches (depth + 1) (.binary operator left right) env depth' part env'
  | value {depth depth' : Nat} {target value part : Tree} {env env' : Environment}
      (within : Reaches depth value env depth' part env') :
      Reaches (depth + 1) (.assignment target value) env depth' part env'

/-- Why evaluating a well-formed tree fails. -/
inductive Trouble (depth : Nat) (t : Tree) (env : Environment) : Failure → Prop
  | tooDeep (short : depth < t.height) : Trouble depth t env .tooDeep
  | undefined {depth' : Nat} {name : Text} {env' : Environment}
      (reached : Reaches depth t env depth' (.reference name) env')
      (missing : env'.find? name = none) :
      Trouble depth t env (.diagnosed (.undefinedVariable name))
  | operation {depth' : Nat} {operator : Token.Kind} {left right : Tree} {x y : Number}
      {env' middle after : Environment} {e : Failure}
      (reached : Reaches depth t env (depth' + 1) (.binary operator left right) env')
      (first : evaluate depth' left env' = .ok x middle)
      (second : evaluate depth' right middle = .ok y after) (barred : Barred operator x y e) :
      Trouble depth t env e

/-- The trouble of a part is trouble of the whole. -/
theorem Trouble.lift {depth : Nat} {t part : Tree} {env env' : Environment} {e : Failure}
    (low : part.height < t.height)
    (lift : ∀ {depth' s env''}, Reaches depth part env' depth' s env'' →
      Reaches (depth + 1) t env depth' s env'')
    (trouble : Trouble depth part env' e) : Trouble (depth + 1) t env e := by
  cases trouble with
  | tooDeep short => exact .tooDeep (by omega)
  | undefined reached missing => exact .undefined (lift reached) missing
  | operation reached first second barred => exact .operation (lift reached) first second barred

theorem evaluate_trouble {depth : Nat} {t : Tree} (wellFormed : t.WellFormed)
    {env after : Environment} {e : Failure} (failed : evaluate depth t env = .error e after) :
    Trouble depth t env e := by
  induction depth generalizing t env after e with
  | zero =>
      cases failed
      exact .tooDeep t.height_pos
  | succ depth ih =>
      cases t with
      | literal value => cases failed
      | reference name =>
          rw [evaluate, lookUp] at failed
          split at failed
          · cases failed
          · rename_i missing
            cases failed
            exact .undefined .here missing
      | unary operator operand =>
          rw [evaluate, bind_apply] at failed
          split at failed
          · cases failed
          · rename_i inner
            cases failed
            exact (ih wellFormed.2 inner).lift (by simp [height]) .operand
      | binary operator left right =>
          obtain ⟨arithmetic, wellLeft, wellRight⟩ := wellFormed
          rw [evaluate, bind_apply] at failed
          cases first : evaluate depth left env with
          | error e' middle =>
              rw [first] at failed
              cases failed
              exact (ih wellLeft first).lift (by simp only [height]; omega) .left
          | ok x middle =>
              rw [first] at failed
              dsimp only at failed
              rw [bind_apply] at failed
              cases second : evaluate depth right middle with
              | error e' later =>
                  rw [second] at failed
                  cases failed
                  exact (ih wellRight second).lift (by simp only [height]; omega) (.right first)
              | ok y later =>
                  rw [second] at failed
                  dsimp only at failed
                  cases applied : apply operator x y with
                  | ok value =>
                      rw [applied] at failed
                      cases failed
                  | error e' =>
                      rw [applied] at failed
                      cases failed
                      exact .operation .here first second (apply_barred arithmetic applied)
      | assignment target value =>
          obtain ⟨⟨name, rfl⟩, -, wellValue⟩ := wellFormed
          rw [evaluate, bind_apply] at failed
          split at failed
          · cases failed
          · rename_i inner
            cases failed
            exact (ih wellValue inner).lift (by simp [height]) .value
      | stray s => cases wellFormed

end Tree

/-! ## Texts -/

namespace Tree

/-- Why interpreting a text fails. -/
inductive Blame (depth : Nat) (text : Text) (env : Environment) : Failure → Prop
  | lexical {d : Diagnostic} (lexical : d.kind = .lexical) : Blame depth text env (.diagnosed d)
  | invalid {d : Diagnostic} (invalid : d.kind = .invalidSyntax) :
      Blame depth text env (.diagnosed d)
  | tooDeep (short : depth < ampleDepth text) : Blame depth text env .tooDeep
  | evaluation {t : Tree} {e : Failure} (parsed : parse depth text = .ok t)
      (trouble : Trouble depth t env e) : Blame depth text env e

theorem parse_blame {depth : Nat} {text : Text} {e : Failure}
    (failed : parse depth text = .error e) (env : Environment) : Blame depth text env e := by
  have verdict := parse_verdict depth text
  rw [failed] at verdict
  cases verdict with
  | rejected here viable stuck => exact .invalid (Scanner.rejection_kind _ _)
  | refused refusal viable =>
      obtain ⟨start, stop, marks⟩ := Scanner.tokens_refused refusal
      exact .lexical marks.kind
  | tooDeep short => exact .tooDeep short

theorem interpret_blame {depth : Nat} {text : Text} {env after : Environment} {e : Failure}
    (failed : interpret depth text env = .error e after) : Blame depth text env e := by
  unfold interpret at failed
  cases parsed : parse depth text with
  | ok t =>
      rw [parsed] at failed
      exact .evaluation parsed (evaluate_trouble (wellFormed_of_parse parsed) failed)
  | error e' =>
      rw [parsed] at failed
      cases failed
      exact parse_blame parsed env

theorem Blame.not_malformed {depth : Nat} {text : Text} {env : Environment} {e : Failure}
    (blame : Blame depth text env e) (m : Malformation) : e ≠ .internal (.malformed m) := by
  rintro rfl
  cases blame with
  | evaluation parsed trouble =>
      cases trouble with
      | operation reached first second barred => cases barred

/-- With an ample allowance nothing is too deep. -/
theorem Blame.short {depth : Nat} {text : Text} {env : Environment}
    (blame : Blame depth text env .tooDeep) : depth < ampleDepth text := by
  cases blame with
  | tooDeep short => exact short
  | evaluation parsed trouble =>
      have ample := height_le_ampleDepth parsed
      cases trouble with
      | tooDeep short => omega
      | operation reached first second barred => cases barred

/-- The tree of a text is well formed, and nesting apart it can be shown and written.  Whatever the
variables are, a text has a value, or it fails for one of the reasons that `Blame` lists: never
because its tree is malformed, and with an ample allowance not by its depth either. -/
theorem interpret_never_malformed (depth : Nat) (text : Text) :
    (∀ t, parse depth text = .ok t → t.WellFormed ∧ ∀ room,
      (∀ indent, (display room indent t = .error .tooDeep ∧ room < t.height) ∨
        ∃ shown, display room indent t = .ok shown) ∧
      ((unparse room t = .error .tooDeep ∧ room < t.height) ∨
        ∃ written, unparse room t = .ok written)) ∧
    ∀ env, (∃ value after, interpret depth text env = .ok value after) ∨
      ∃ e after, interpret depth text env = .error e after ∧ Blame depth text env e ∧
        (∀ m, e ≠ .internal (.malformed m)) ∧ (e = .tooDeep → depth < ampleDepth text) := by
  constructor
  · intro t parsed
    obtain ⟨w, written, valid⟩ := writable_of_parse parsed
    refine ⟨wellFormed_of_parse parsed, fun room => ⟨written.display valid room, ?_⟩⟩
    rcases written.unparse valid room with deep | ⟨text, ok, -⟩
    · exact .inl deep
    · exact .inr ⟨text, ok⟩
  · intro env
    cases result : interpret depth text env with
    | ok value after => exact .inl ⟨value, after, rfl⟩
    | error e after =>
        have blame := interpret_blame result
        refine .inr ⟨e, after, rfl, blame, blame.not_malformed, ?_⟩
        rintro rfl
        exact blame.short

/-- A dividend that cannot be written takes the place of the division by zero. -/
theorem interpret_never_malformed_long_dividend :
    ∃ t after, parse 20 "n / 0".toList = .ok t ∧ t.WellFormed ∧
      interpret 20 "n / 0".toList ⟨[("n".toList, .int (10 ^ maxDigits))]⟩ =
        .error (.internal .textTooLong) after ∧
      Blame 20 "n / 0".toList ⟨[("n".toList, .int (10 ^ maxDigits))]⟩
        (.internal .textTooLong) := by
  obtain ⟨shown, evaluated⟩ := interpret_never_malformed 20 "n / 0".toList
  have parsed : parse 20 "n / 0".toList =
      .ok (.binary (.symbol .slash) (.reference "n".toList) (.literal (.int 0))) := by cbv
  have divided : ∀ i : Int, interpret 20 "n / 0".toList ⟨[("n".toList, .int i)]⟩ =
      .error (Number.divisionFailure (.int i)) ⟨[("n".toList, .int i)]⟩ := by
    intro i
    rw [interpret, parsed]
    rfl
  have long : Number.divisionFailure (.int (10 ^ maxDigits)) = .internal .textTooLong := by
    have notWritable : Number.writable (10 ^ maxDigits) = false := by
      rw [Number.writable, Int.natAbs_pow]
      generalize maxDigits = digits
      exact decide_eq_false (Nat.lt_irrefl (10 ^ digits))
    rw [Number.divisionFailure, Number.text?, notWritable]
    rfl
  have failed := divided (10 ^ maxDigits)
  rw [long] at failed
  rcases evaluated ⟨[("n".toList, .int (10 ^ maxDigits))]⟩ with ⟨value, after, found⟩ | found
  · rw [failed] at found
    cases found
  · obtain ⟨e, after, found, blame, -⟩ := found
    obtain ⟨rfl, rfl⟩ : .internal .textTooLong = e ∧ _ = after := by
      simpa using failed.symm.trans found
    exact ⟨_, _, parsed, (shown _ parsed).1, failed, blame⟩

end Tree
end Abacus
