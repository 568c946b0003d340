/- # Derivations

The grammar as a relation: `Derives p u t` says that the lexemes `u` are derived from the phrase `p`
with the tree `t`.  There is one constructor for every alternative of the rules

    expression     ::= assignment
    assignment     ::= identifier "=" expression | additive
    additive       ::= multiplicative (("+" | "-") multiplicative)*
    multiplicative ::= unary (("*" | "/") unary)*
    unary          ::= ("+" | "-") unary | atom
    atom           ::= integer | identifier | "(" expression ")"

and a phrase of its own for the part of a chain behind its first operands, which carries the tree of
these operands: so chains fold to the left.  Parentheses leave no node.

The relation knows nothing of a parser.  The main result, `Derives.unique`, is that two derivations
from one phrase that start at the same place end at the same place, with the same tree, as long as
neither could have been longer (`Ends`).  For whole texts this is that no sequence of lexemes has
two trees. -/
import Abacus.Grammar

namespace Abacus
set_option autoImplicit false

open Token (Lexeme)

inductive Level where
  | additive
  | multiplicative

/-- What lexemes are derived from: a rule, or what follows in a chain whose operands so far gave a
tree. -/
inductive Phrase where
  | expression
  | assignment
  | chain (level : Level)
  | rest (level : Level) (sofar : Tree)
  | unary
  | atom

namespace Level

def isOperator : Level → Token.Kind → Bool
  | additive => Rule.isSign
  | multiplicative => Rule.isScale

def operand : Level → Phrase
  | additive => .chain .multiplicative
  | multiplicative => .unary

end Level

def Rule.phrase : Rule → Phrase
  | .expression => .expression
  | .assignment => .assignment
  | .additive => .chain .additive
  | .multiplicative => .chain .multiplicative
  | .unary => .unary
  | .atom => .atom

/-- `Derives p u t`: the lexemes `u` are derived from `p` with the tree `t`. -/
inductive Derives : Phrase → List Lexeme → Tree → Prop
  | expression {u : List Lexeme} {t : Tree} (whole : Derives .assignment u t) :
      Derives .expression u t
  | assign {name : Text} {u : List Lexeme} {t : Tree} (value : Derives .expression u t) :
      Derives .assignment (.identifier name :: .symbol .assign :: u)
        (.assignment (.reference name) t)
  | additive {u : List Lexeme} {t : Tree} (whole : Derives (.chain .additive) u t) :
      Derives .assignment u t
  | chain {level : Level} {u v : List Lexeme} {first t : Tree}
      (operand : Derives level.operand u first) (later : Derives (.rest level first) v t) :
      Derives (.chain level) (u ++ v) t
  | done {level : Level} {t : Tree} : Derives (.rest level t) [] t
  | more {level : Level} {l : Lexeme} {u v : List Lexeme} {left right t : Tree}
      (operator : level.isOperator l.kind) (operand : Derives level.operand u right)
      (later : Derives (.rest level (.binary l.kind left right)) v t) :
      Derives (.rest level left) (l :: (u ++ v)) t
  | sign {l : Lexeme} {u : List Lexeme} {t : Tree} (operator : Rule.isSign l.kind)
      (operand : Derives .unary u t) : Derives .unary (l :: u) (.unary l.kind t)
  | atom {u : List Lexeme} {t : Tree} (whole : Derives .atom u t) : Derives .unary u t
  | integer {value : Nat} : Derives .atom [.integer value] (.literal (.int value))
  | identifier {name : Text} : Derives .atom [.identifier name] (.reference name)
  | parentheses {u : List Lexeme} {t : Tree} (inner : Derives .expression u t) :
      Derives .atom (.symbol .openParen :: (u ++ [.symbol .closeParen])) t

namespace Derives

variable {u : List Lexeme} {t : Tree}

/-! ## Chains of one operand -/

theorem chain_of_operand {level : Level} (operand : Derives level.operand u t) :
    Derives (.chain level) u t := by
  have chain := Derives.chain operand .done
  rwa [List.append_nil] at chain

theorem operand_of_unary (level : Level) (whole : Derives .unary u t) :
    Derives level.operand u t := by
  cases level with
  | additive => exact @chain_of_operand _ _ .multiplicative whole
  | multiplicative => exact whole

theorem additive_of_unary (whole : Derives .unary u t) : Derives (.chain .additive) u t :=
  chain_of_operand (operand_of_unary .additive whole)

theorem expression_of_unary (whole : Derives .unary u t) : Derives .expression u t :=
  .expression (.additive (additive_of_unary whole))

end Derives

/-! ## Where a phrase ends -/

/-- Whether a lexeme of the given kind, right behind a chain, would carry the chain on. -/
def Level.extends : Level → Token.Kind → Bool
  | additive => fun kind => Rule.isScale kind || Rule.isSign kind
  | multiplicative => Rule.isScale

/-- Whether a lexeme of the given kind, right behind a phrase, would carry the phrase on. -/
def Phrase.extends : Phrase → Token.Kind → Bool
  | expression | assignment => Level.additive.extends
  | chain level | rest level _ => level.extends
  | unary | atom => fun _ => false

/-- Whether a phrase may be an assignment without parentheses. -/
def Phrase.assigns : Phrase → Bool
  | expression | assignment => true
  | _ => false

def Phrase.isOperand : Phrase → Bool
  | chain _ | unary | atom => true
  | _ => false

/-- Whether lexemes end with a name that "=" would make the target of an assignment. -/
def Dangling : List Lexeme → Prop
  | [.identifier _] => True
  | .identifier _ :: .symbol .assign :: later => Dangling later
  | _ => False

/-- Derived from `p`, the lexemes `here` end in front of `later`: nothing of `later` would carry
them on. -/
structure Ends (p : Phrase) (here later : List Lexeme) : Prop where
  operator : ∀ l more, later = l :: more → p.extends l.kind = false
  assign : p.assigns → Dangling here → ∀ more, later ≠ .symbol .assign :: more

namespace Ends

variable {p : Phrase} {here : List Lexeme}

theorem nil (p : Phrase) (here : List Lexeme) : Ends p here [] := ⟨by simp, by simp⟩

/-- Only the first lexeme behind a phrase matters. -/
theorem of_shared {shared later : List Lexeme} {l : Lexeme}
    (ends : Ends p here (shared ++ l :: later)) (other : List Lexeme) :
    Ends p here (shared ++ l :: other) := by
  cases shared with
  | nil =>
      refine ⟨fun k more same => ?_, fun assigns dangling more same => ?_⟩
      · cases same
        exact ends.operator l later rfl
      · cases same
        exact ends.assign assigns dangling later rfl
  | cons k shared =>
      refine ⟨fun k more same => ?_, fun assigns dangling more same => ?_⟩
      · cases same
        exact ends.operator _ _ rfl
      · cases same
        exact ends.assign assigns dangling _ rfl

theorem of_not_assigns {later : List Lexeme} (plain : p.assigns = false)
    (operator : ∀ l more, later = l :: more → p.extends l.kind = false) : Ends p here later :=
  ⟨operator, by simp [plain]⟩

theorem rest_iff {level : Level} {sofar : Tree} {later : List Lexeme} :
    Ends (.rest level sofar) here later ↔
      ∀ l more, later = l :: more → level.extends l.kind = false :=
  ⟨fun ends => ends.operator, fun operator => of_not_assigns rfl operator⟩

theorem chain_iff {level : Level} {later : List Lexeme} :
    Ends (.chain level) here later ↔
      ∀ l more, later = l :: more → level.extends l.kind = false :=
  ⟨fun ends => ends.operator, fun operator => of_not_assigns rfl operator⟩

/-- Nothing carries on an atom, nor what ends with one. -/
theorem unary (here later : List Lexeme) : Ends .unary here later :=
  of_not_assigns rfl fun _ _ _ => rfl

theorem atom (here later : List Lexeme) : Ends .atom here later :=
  of_not_assigns rfl fun _ _ _ => rfl

end Ends

theorem Level.operand_assigns (level : Level) : level.operand.assigns = false := by
  cases level <;> rfl

theorem Level.operand_isOperand (level : Level) : level.operand.isOperand := by
  cases level <;> rfl

/-- What carries on a chain carries on its last operand or is an operator of the chain. -/
theorem Level.extends_eq (level : Level) (kind : Token.Kind) :
    level.extends kind = (level.operand.extends kind || level.isOperator kind) := by
  cases level <;> simp [Level.extends, Phrase.extends, Level.operand, Level.isOperator]

theorem Level.extends_operator (level : Level) {kind : Token.Kind}
    (operator : level.isOperator kind) : level.extends kind := by
  rw [level.extends_eq, operator, Bool.or_true]

/-- No operator of a chain carries on an operand of the chain. -/
theorem Level.operand_stops (level : Level) {kind : Token.Kind} (operator : level.isOperator kind) :
    level.operand.extends kind = false := by
  cases level with
  | multiplicative => rfl
  | additive =>
      simp only [isOperator, Rule.isSign, Bool.or_eq_true, beq_iff_eq] at operator
      rcases operator with rfl | rfl <;> rfl

/-! ## First lexemes -/

theorem Derives.atom_head {u : List Lexeme} {t : Tree} (derived : Derives .atom u t) :
    ∃ l v, u = l :: v ∧ Rule.isSign l.kind = false := by
  cases derived with
  | integer => exact ⟨_, _, rfl, rfl⟩
  | identifier => exact ⟨_, _, rfl, rfl⟩
  | parentheses inner => exact ⟨_, _, rfl, rfl⟩

/-- An atom that starts with a parenthesis is an expression in parentheses. -/
theorem Derives.of_openParen {u v w : List Lexeme} {t : Tree} (derived : Derives .atom u t)
    (same : u ++ v = .symbol .openParen :: w) :
    ∃ inside, u = .symbol .openParen :: (inside ++ [.symbol .closeParen]) ∧
      Derives .expression inside t := by
  cases derived with
  | integer => cases (List.cons.inj same).1
  | identifier => cases (List.cons.inj same).1
  | parentheses inner => exact ⟨_, rfl, inner⟩

/-- The rest of a chain is empty or starts with an operator. -/
theorem Derives.rest_head {level : Level} {sofar t : Tree} {u : List Lexeme}
    (derived : Derives (.rest level sofar) u t) :
    u = [] ∨ ∃ l v, u = l :: v ∧ level.isOperator l.kind := by
  cases derived with
  | done => exact .inl rfl
  | more operator operand later => exact .inr ⟨_, _, rfl, operator⟩

/-- An operand ends in front of the rest of its chain. -/
theorem Derives.operand_ends {level : Level} {sofar t : Tree} {u here v : List Lexeme}
    (later : Derives (.rest level sofar) u t)
    (ends : ∀ l more, v = l :: more → level.extends l.kind = false) :
    Ends level.operand here (u ++ v) := by
  refine .of_not_assigns level.operand_assigns fun l more same => ?_
  rcases later.rest_head with rfl | ⟨k, w, rfl, operator⟩
  · have stops := ends l more same
    rw [level.extends_eq, Bool.or_eq_false_iff] at stops
    exact stops.1
  · obtain ⟨rfl, -⟩ := List.cons.inj same
    exact level.operand_stops operator

theorem Level.not_isOperator_assign (level : Level) :
    level.isOperator (Lexeme.symbol .assign).kind = false := by
  cases level <;> rfl

/-- An operand that starts with a name in front of "=" is this name. -/
theorem Derives.name_before_assign {p : Phrase} {u : List Lexeme} {t : Tree}
    (derived : Derives p u t) (operand : p.isOperand) {name : Text} {v w : List Lexeme}
    (same : u ++ w = .identifier name :: .symbol .assign :: v) : u = [.identifier name] := by
  induction derived generalizing v w with
  | expression | assign | additive | done | more => cases operand
  | @chain level u later first t derived rest ih _ =>
      rw [List.append_assoc] at same
      obtain rfl := ih level.operand_isOperand same
      rcases rest.rest_head with rfl | ⟨l, x, rfl, operator⟩
      · rfl
      · obtain rfl : l = .symbol .assign := (List.cons.inj (List.cons.inj same).2).1
        rw [level.not_isOperator_assign] at operator
        cases operator
  | sign operator derived ih =>
      obtain ⟨rfl, -⟩ := List.cons.inj same
      cases operator
  | atom whole ih => exact ih rfl same
  | integer => cases (List.cons.inj same).1
  | identifier => rw [(List.cons.inj same).1]
  | parentheses inner => cases (List.cons.inj same).1

theorem Derives.eq_name_of_dangling {p : Phrase} {u : List Lexeme} {t : Tree}
    (derived : Derives p u t) (operand : p.isOperand) (dangling : Dangling u) :
    ∃ name, u = [.identifier name] := by
  unfold Dangling at dangling
  split at dangling
  · exact ⟨_, rfl⟩
  · exact ⟨_, derived.name_before_assign operand (List.append_nil _)⟩
  · cases dangling

/-! ## One tree -/

/-- What comes behind an assignment ends its value. -/
theorem Ends.value {name : Text} {u v : List Lexeme}
    (ends : Ends .assignment (.identifier name :: .symbol .assign :: u) v) :
    Ends .expression u v :=
  ⟨ends.operator, fun _ dangling => ends.assign rfl dangling⟩

theorem Ends.closeParen (u v : List Lexeme) : Ends .expression u (.symbol .closeParen :: v) := by
  refine ⟨fun l more same => ?_, fun _ _ more same => ?_⟩
  · cases same
    rfl
  · cases same

/-- No chain is an assignment: in front of "=" stands a name that would be its target. -/
theorem Derives.not_chain_of_assign {name : Text} {u v w : List Lexeme} {t : Tree}
    (derived : Derives (.chain .additive) u t) (ends : Ends .assignment u v)
    (same : u ++ v = .identifier name :: .symbol .assign :: w) : False := by
  obtain rfl := derived.name_before_assign rfl same
  exact ends.assign rfl trivial w (List.cons.inj same).2

/-- Derivations from one phrase that start at the same place and end as soon as they may are one:
they take the same lexemes and give the same tree. -/
theorem Derives.unique {p : Phrase} {u u' v v' : List Lexeme} {t t' : Tree}
    (first : Derives p u t) (second : Derives p u' t') (same : u ++ v = u' ++ v')
    (ends : Ends p u v) (ends' : Ends p u' v') : u = u' ∧ t = t' := by
  induction first generalizing u' v v' t' with
  | expression whole ih =>
      cases second with
      | expression whole' => exact ih whole' same ⟨ends.1, ends.2⟩ ⟨ends'.1, ends'.2⟩
  | @assign name u t value ih =>
      cases second with
      | @assign name' u' t' value' =>
          simp only [List.cons_append, List.cons.injEq, Lexeme.identifier.injEq, true_and] at same
          obtain ⟨rfl, same⟩ := same
          obtain ⟨rfl, rfl⟩ := ih value' same ends.value ends'.value
          exact ⟨rfl, rfl⟩
      | additive whole' => exact (whole'.not_chain_of_assign ends' same.symm).elim
  | additive whole ih =>
      cases second with
      | assign value' => exact (whole.not_chain_of_assign ends same).elim
      | additive whole' =>
          exact ih whole' same (.of_not_assigns rfl ends.operator)
            (.of_not_assigns rfl ends'.operator)
  | @chain level u later first t operand rest ihOperand ihRest =>
      cases second with
      | @chain _ u' later' first' t' operand' rest' =>
          rw [List.append_assoc, List.append_assoc] at same
          obtain ⟨rfl, rfl⟩ := ihOperand operand' same (rest.operand_ends ends.operator)
            (rest'.operand_ends ends'.operator)
          obtain ⟨rfl, rfl⟩ := ihRest rest' (List.append_cancel_left same)
            (.of_not_assigns rfl ends.operator) (.of_not_assigns rfl ends'.operator)
          exact ⟨rfl, rfl⟩
  | @done level t =>
      cases second with
      | done => exact ⟨rfl, rfl⟩
      | more operator operand' rest' =>
          have stops : level.extends _ = false := ends.operator _ _ same
          rw [level.extends_operator operator] at stops
          cases stops
  | @more level l u later left right t operator operand rest ihOperand ihRest =>
      cases second with
      | done =>
          have stops : level.extends _ = false := ends'.operator _ _ same.symm
          rw [level.extends_operator operator] at stops
          cases stops
      | @more _ l' u' later' _ right' t' operator' operand' rest' =>
          simp only [List.cons_append, List.cons.injEq, List.append_assoc] at same
          obtain ⟨rfl, same⟩ := same
          obtain ⟨rfl, rfl⟩ := ihOperand operand' same (rest.operand_ends ends.operator)
            (rest'.operand_ends ends'.operator)
          obtain ⟨rfl, rfl⟩ := ihRest rest' (List.append_cancel_left same)
            (.of_not_assigns rfl ends.operator) (.of_not_assigns rfl ends'.operator)
          exact ⟨rfl, rfl⟩
  | @sign l u t operator operand ih =>
      cases second with
      | @sign l' u' t' operator' operand' =>
          obtain ⟨rfl, tails⟩ := List.cons.inj same
          obtain ⟨rfl, rfl⟩ := ih operand' tails (.unary _ _) (.unary _ _)
          exact ⟨rfl, rfl⟩
      | atom whole' =>
          obtain ⟨l', v, rfl, plain⟩ := whole'.atom_head
          obtain ⟨rfl, -⟩ := List.cons.inj same
          rw [operator] at plain
          cases plain
  | atom whole ih =>
      cases second with
      | sign operator' operand' =>
          obtain ⟨l, v, rfl, plain⟩ := whole.atom_head
          obtain ⟨rfl, -⟩ := List.cons.inj same
          rw [operator'] at plain
          cases plain
      | atom whole' => exact ih whole' same (.atom _ _) (.atom _ _)
  | integer =>
      cases second with
      | integer => cases (List.cons.inj same).1; exact ⟨rfl, rfl⟩
      | identifier => cases (List.cons.inj same).1
      | parentheses inner => cases (List.cons.inj same).1
  | identifier =>
      cases second with
      | integer => cases (List.cons.inj same).1
      | identifier => cases (List.cons.inj same).1; exact ⟨rfl, rfl⟩
      | parentheses inner => cases (List.cons.inj same).1
  | @parentheses u t inner ih =>
      cases second with
      | integer => cases (List.cons.inj same).1
      | identifier => cases (List.cons.inj same).1
      | @parentheses u' t' inner' =>
          simp only [List.cons_append, List.append_assoc, List.cons.injEq, true_and] at same
          obtain ⟨rfl, rfl⟩ := ih inner' same (.closeParen _ _) (.closeParen _ _)
          exact ⟨rfl, rfl⟩

/-- The grammar is unambiguous: no sequence of lexemes has two trees. -/
theorem Derives.tree_unique {p : Phrase} {u : List Lexeme} {t t' : Tree}
    (first : Derives p u t) (second : Derives p u t') : t = t' :=
  (first.unique second (rfl : u ++ [] = u ++ []) (.nil p u) (.nil p u)).2

end Abacus
