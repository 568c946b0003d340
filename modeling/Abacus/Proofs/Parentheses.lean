/- # Balanced parentheses

All that the grammar derives and all that is written is balanced: no part at the start closes more
parentheses than it opens, and as many are closed as are opened.  So a parenthesis that is opened is
closed at one place only (`Balanced.cancel`), whatever stands inside. -/
import Abacus.Proofs.Writing

namespace Abacus
set_option autoImplicit false

open Token (Lexeme)

/-- What a lexeme adds to the count of open parentheses. -/
def Token.Lexeme.opens : Lexeme → Int
  | symbol .openParen => 1
  | symbol .closeParen => -1
  | _ => 0

/-- How many parentheses are opened and not closed. -/
def nesting : List Lexeme → Int
  | [] => 0
  | l :: u => l.opens + nesting u

@[simp] theorem nesting_nil : nesting [] = 0 := rfl

@[simp] theorem nesting_cons (l : Lexeme) (u : List Lexeme) :
    nesting (l :: u) = l.opens + nesting u := rfl

@[simp] theorem nesting_append (u v : List Lexeme) : nesting (u ++ v) = nesting u + nesting v := by
  induction u with
  | nil => simp
  | cons l u ih =>
      rw [List.cons_append, nesting_cons, nesting_cons, ih]
      omega

/-- Nothing is closed that was not opened, and everything that was opened is closed. -/
structure Balanced (u : List Lexeme) : Prop where
  above : ∀ v, v <+: u → 0 ≤ nesting v
  level : nesting u = 0

namespace Balanced

variable {u v : List Lexeme}

theorem nil : Balanced [] := by
  refine ⟨fun v start => ?_, rfl⟩
  rw [List.prefix_nil.mp start]
  exact Int.le_refl 0

theorem cons {l : Lexeme} (plain : l.opens = 0) (later : Balanced u) : Balanced (l :: u) := by
  refine ⟨fun v start => ?_, ?_⟩
  · rcases List.prefix_cons_iff.mp start with rfl | ⟨w, rfl, within⟩
    · exact Int.le_refl 0
    · have := later.above w within
      rw [nesting_cons]
      omega
  · rw [nesting_cons, later.level, plain]
    rfl

theorem append (first : Balanced u) (second : Balanced v) : Balanced (u ++ v) := by
  refine ⟨fun w start => ?_, ?_⟩
  · rcases List.prefix_or_prefix_of_prefix start (List.prefix_append u v) with inside | ⟨x, rfl⟩
    · exact first.above w inside
    · have := second.above x ((List.prefix_append_right_inj u).mp start)
      rw [nesting_append, first.level]
      omega
  · rw [nesting_append, first.level, second.level]
    rfl

theorem parentheses (inside : Balanced u) :
    Balanced (.symbol .openParen :: (u ++ [.symbol .closeParen])) := by
  refine ⟨fun v start => ?_, ?_⟩
  · rcases List.prefix_cons_iff.mp start with rfl | ⟨w, rfl, within⟩
    · exact Int.le_refl 0
    · rw [nesting_cons, Lexeme.opens]
      rcases List.prefix_concat_iff.mp within with rfl | within
      · simp [Lexeme.opens, inside.level]
      · have := inside.above w within
        omega
  · simp [Lexeme.opens, inside.level]

/-- What goes on with a closing parenthesis closes one too much. -/
theorem not_closed (balanced : Balanced u) (z : List Lexeme) :
    ¬ Balanced (u ++ .symbol .closeParen :: z) := by
  intro longer
  have below := longer.above (u ++ [.symbol .closeParen]) ⟨z, by simp⟩
  simp [balanced.level, Lexeme.opens] at below

/-- Where a parenthesis is closed does not hang on what stands behind it. -/
theorem cancel {x y : List Lexeme} (first : Balanced u) (second : Balanced v)
    (same : u ++ .symbol .closeParen :: x = v ++ .symbol .closeParen :: y) : u = v ∧ x = y := by
  rcases List.append_eq_append_iff.mp same with ⟨z, rfl, rest⟩ | ⟨z, rfl, rest⟩
  · cases z with
    | nil => simpa using rest
    | cons l z =>
        obtain ⟨rfl, -⟩ := List.cons.inj rest
        exact absurd second (first.not_closed z)
  · cases z with
    | nil => simpa using rest.symm
    | cons l z =>
        obtain ⟨rfl, -⟩ := List.cons.inj rest
        exact absurd first (second.not_closed z)

end Balanced

theorem Level.operator_opens {level : Level} {l : Lexeme} (operator : level.isOperator l.kind) :
    l.opens = 0 := by
  cases level <;>
    simp only [isOperator, Rule.isSign, Rule.isScale, Bool.or_eq_true, beq_iff_eq] at operator <;>
    rcases operator with same | same <;> obtain rfl := Token.Lexeme.eq_of_kind same <;> rfl

theorem Derives.balanced {p : Phrase} {u : List Lexeme} {t : Tree} (derived : Derives p u t) :
    Balanced u := by
  induction derived with
  | expression _ ih | additive _ ih | atom _ ih => exact ih
  | assign value ih => exact .cons rfl (.cons rfl ih)
  | chain operand later ihOperand ihLater => exact ihOperand.append ihLater
  | done => exact .nil
  | more operator operand later ihOperand ihLater =>
      exact .cons (Level.operator_opens operator) (ihOperand.append ihLater)
  | sign operator operand ih => exact .cons (@Level.operator_opens .additive _ operator) ih
  | integer => exact .cons rfl .nil
  | identifier => exact .cons rfl .nil
  | parentheses inner ih => exact ih.parentheses

theorem Tree.Written.balanced {t : Tree} {w : List Lexeme} (written : t.Written w) :
    Balanced w := by
  induction written with
  | literal => exact .cons rfl .nil
  | reference => exact .cons rfl .nil
  | unary operator operand ih => exact .cons (@Level.operator_opens .additive _ operator) ih
  | binary operator first second ihFirst ihSecond =>
      exact .parentheses (ihFirst.append (.cons (Level.operator_opens operator) ihSecond))
  | assignment value ih => exact .cons rfl (.cons rfl ih)

end Abacus
