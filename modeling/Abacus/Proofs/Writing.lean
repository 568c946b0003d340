/- # Writing and showing

A tree is written with parentheses around every binary operation and nowhere else; `Written t w`
says that `w` are the lexemes of this.  Only trees that a text can stand for are written
(`Tree.writable_of_parse`).  For these `Tree.unparse` fails by depth alone and otherwise spells the
lexemes (`Tree.Written.unparse`), and `Tree.display` fails by depth alone as well
(`Tree.Written.display`); what is shown is no higher than the allowance
(`Tree.height_le_of_display`). -/
import Abacus.Proofs.Parsing
import Abacus.Proofs.Spelling

namespace Abacus
set_option autoImplicit false

open Token (Lexeme lexemes)

namespace Tree

/-- The lexemes of a tree, with parentheses around every binary operation. -/
inductive Written : Tree → List Lexeme → Prop
  | literal {n : Nat} : Written (.literal (.int n)) [.integer n]
  | reference {name : Text} : Written (.reference name) [.identifier name]
  | unary {l : Lexeme} {t : Tree} {u : List Lexeme} (operator : Rule.isSign l.kind)
      (operand : Written t u) : Written (.unary l.kind t) (l :: u)
  | binary {l : Lexeme} {left right : Tree} {u v : List Lexeme} {level : Level}
      (operator : level.isOperator l.kind) (first : Written left u) (second : Written right v) :
      Written (.binary l.kind left right)
        (.symbol .openParen :: ((u ++ l :: v) ++ [.symbol .closeParen]))
  | assignment {name : Text} {t : Tree} {u : List Lexeme} (value : Written t u) :
      Written (.assignment (.reference name) t) (.identifier name :: .symbol .assign :: u)

/-- Whether a tree is written with lexemes that can stand in a text. -/
def Writable (t : Tree) : Prop := ∃ w, t.Written w ∧ ∀ l ∈ w, l.Valid

/-- How deep showing or writing a tree goes. -/
def height : Tree → Nat
  | unary _ operand => operand.height + 1
  | binary _ left right => max left.height right.height + 1
  | assignment _ value => value.height + 1
  | _ => 1

end Tree

/-! ## Trees of texts -/

namespace Level

/-- An operator is a symbol that writing has a character for. -/
theorem operator_symbol {level : Level} {l : Lexeme} (operator : level.isOperator l.kind) :
    ∃ s, l = .symbol s ∧ Tree.operatorChar l.kind = .ok s.char := by
  cases level <;>
    simp only [isOperator, Rule.isSign, Rule.isScale, Bool.or_eq_true, beq_iff_eq] at operator <;>
    rcases operator with same | same <;> obtain rfl := Token.Lexeme.eq_of_kind same <;>
    exact ⟨_, rfl, rfl⟩

theorem operator_valid {level : Level} {l : Lexeme} (operator : level.isOperator l.kind) :
    l.Valid := by
  obtain ⟨s, rfl, -⟩ := operator_symbol operator
  trivial

end Level

namespace Tree.Writable

theorem unary {l : Lexeme} {t : Tree} (operator : Rule.isSign l.kind) (operand : t.Writable) :
    (Tree.unary l.kind t).Writable := by
  obtain ⟨w, written, valid⟩ := operand
  refine ⟨l :: w, .unary operator written, fun k member => ?_⟩
  rcases List.mem_cons.mp member with rfl | member
  · exact @Level.operator_valid .additive _ operator
  · exact valid k member

theorem binary {level : Level} {l : Lexeme} {left right : Tree}
    (operator : level.isOperator l.kind) (first : left.Writable) (second : right.Writable) :
    (Tree.binary l.kind left right).Writable := by
  obtain ⟨u, written, valid⟩ := first
  obtain ⟨v, written', valid'⟩ := second
  refine ⟨_, .binary operator written written', fun k member => ?_⟩
  simp only [List.mem_cons, List.mem_append, List.not_mem_nil, or_false] at member
  rcases member with rfl | (member | rfl | member) | rfl
  · trivial
  · exact valid k member
  · exact Level.operator_valid operator
  · exact valid' k member
  · trivial

theorem assignment {name : Text} {t : Tree} (target : (Lexeme.identifier name).Valid)
    (value : t.Writable) : (Tree.assignment (.reference name) t).Writable := by
  obtain ⟨w, written, valid⟩ := value
  refine ⟨_, .assignment written, fun k member => ?_⟩
  simp only [List.mem_cons] at member
  rcases member with rfl | rfl | member
  · exact target
  · trivial
  · exact valid k member

end Tree.Writable

/-- Whether the operands so far, where a phrase has some, gave a tree that can be written. -/
def Phrase.Writable : Phrase → Prop
  | rest _ sofar => sofar.Writable
  | _ => True

theorem Level.operand_writable (level : Level) : level.operand.Writable := by
  cases level <;> trivial

/-- The trees of texts can be written. -/
theorem Derives.writable {p : Phrase} {u : List Lexeme} {t : Tree} (derived : Derives p u t)
    (valid : ∀ l ∈ u, l.Valid) (sofar : p.Writable) : t.Writable := by
  induction derived with
  | expression _ ih | additive _ ih | atom _ ih => exact ih valid trivial
  | assign value ih =>
      refine .assignment (valid _ (by simp)) (ih (fun l member => valid l ?_) trivial)
      simp [member]
  | @chain level u v first t operand later ihOperand ihLater =>
      refine ihLater (fun l member => valid l (by simp [member])) ?_
      exact ihOperand (fun l member => valid l (by simp [member])) level.operand_writable
  | done => exact sofar
  | @more level l u v left right t operator operand later ihOperand ihLater =>
      refine ihLater (fun l member => valid l (by simp [member])) (.binary operator sofar ?_)
      exact ihOperand (fun l member => valid l (by simp [member])) level.operand_writable
  | sign operator operand ih =>
      exact .unary operator (ih (fun l member => valid l (by simp [member])) trivial)
  | integer => exact ⟨_, .literal, valid⟩
  | identifier => exact ⟨_, .reference, valid⟩
  | parentheses inner ih => exact ih (fun l member => valid l (by simp [member])) trivial

theorem Tree.writable_of_parse {depth : Nat} {text : Text} {t : Tree}
    (parsed : parse depth text = .ok t) : t.Writable := by
  obtain ⟨found, stop, tokens, last, derived⟩ := derives_of_parse parsed
  refine derived.writable (fun l member => ?_) trivial
  obtain ⟨token, inside, rfl⟩ := List.mem_map.mp member
  rcases Scanner.ahead_shape ⟨text, 0⟩ with ⟨found', stop', same, -, valid⟩ | ⟨found', d, same, -⟩
  · rw [← Scanner.tokens_eq_ahead, tokens] at same
    obtain ⟨rfl, -⟩ := List.append_inj' (Prod.mk.inj same).1 rfl
    exact valid token inside
  · rw [← Scanner.tokens_eq_ahead, tokens] at same
    cases (Prod.mk.inj same).2

/-! ## The text of a tree -/

/-- Whether nothing at the start of a text would carry on a number or a name before it. -/
def Text.Apart (later : Text) : Prop :=
  ∀ c more, later = c :: more → c.isDigit = false ∧ c.isAlpha = false

namespace Text.Apart

theorem nil : Text.Apart [] := fun _ _ same => by cases same

theorem blank (later : Text) : Text.Apart (' ' :: later) := by
  intro c more same
  cases same
  decide

theorem symbol (s : Symbol) (later : Text) : Text.Apart (s.char :: later) := by
  intro c more same
  cases same
  exact s.char_plain.2

theorem carries {later : Text} (apart : later.Apart) (l : Lexeme) :
    ∀ c more, later = c :: more → l.carries c = false := by
  intro c more same
  obtain ⟨notDigit, notLetter⟩ := apart c more same
  cases l <;> first | exact notDigit | exact notLetter | rfl

end Text.Apart

theorem Spells.symbol (s : Symbol) {later : Text} {u : List Lexeme} (rest : Spells later u) :
    Spells (s.char :: later) (.symbol s :: u) :=
  @Spells.word (.symbol s) later u trivial (fun _ _ _ => rfl) rest

theorem Spells.space {later : Text} {u : List Lexeme} (rest : Spells later u) :
    Spells (' ' :: later) u := .blank (by decide) rest

namespace Tree

theorem height_pos (t : Tree) : 0 < t.height := by
  cases t <;> simp [height]

theorem literal_text {n : Nat} (few : (Lexeme.integer n).Valid) :
    (Number.int n).text = .ok (Text.ofNat n) := by
  have writable : Number.writable n := by
    unfold Lexeme.Valid at few
    rw [Number.writable]
    -- no power of this size is to be evaluated
    generalize maxDigits = digits at few ⊢
    exact decide_eq_true few
  simp [Number.text, Number.text?, writable, Text.ofInt]

/-- Writing fails by depth alone, and only below the height of the tree.  Else it spells the lexemes
of the tree, in front of whatever stands apart. -/
theorem Written.unparse {t : Tree} {w : List Lexeme} (written : t.Written w)
    (valid : ∀ l ∈ w, l.Valid) (depth : Nat) :
    (unparse depth t = .error .tooDeep ∧ depth < t.height) ∨
    ∃ text, unparse depth t = .ok text ∧
      ∀ later u, Spells later u → later.Apart → Spells (text ++ later) (w ++ u) := by
  induction depth generalizing t w with
  | zero => exact .inl ⟨rfl, height_pos t⟩
  | succ depth ih =>
      cases written with
      | @literal n =>
          have few : (Lexeme.integer n).Valid := valid _ (by simp)
          refine .inr ⟨_, literal_text few, fun later u rest apart => ?_⟩
          exact .word few (apart.carries (.integer n)) rest
      | @reference name =>
          refine .inr ⟨name, rfl, fun later u rest apart => ?_⟩
          exact .word (valid _ (by simp)) (apart.carries (.identifier name)) rest
      | @unary l t u operator operand =>
          obtain ⟨s, rfl, char⟩ := @Level.operator_symbol .additive _ operator
          rw [Tree.unparse, char, height]
          rcases ih operand (fun l member => valid l (by simp [member])) with
            ⟨deep, low⟩ | ⟨text, ok, spells⟩
          · exact .inl ⟨by rw [deep]; rfl, by omega⟩
          · refine .inr ⟨s.char :: text, by rw [ok]; rfl, fun later u rest apart => ?_⟩
            exact .symbol s (spells later u rest apart)
      | @binary l left right u v level operator first second =>
          obtain ⟨s, rfl, char⟩ := Level.operator_symbol operator
          rw [Tree.unparse, char, height]
          rcases ih first (fun l member => valid l (by simp [member])) with
            ⟨deep, low⟩ | ⟨x, ok, spells⟩
          · exact .inl ⟨by rw [deep]; rfl, by omega⟩
          rcases ih second (fun l member => valid l (by simp [member])) with
            ⟨deep, low⟩ | ⟨y, ok', spells'⟩
          · exact .inl ⟨by rw [ok, deep]; rfl, by omega⟩
          refine .inr ⟨_, by rw [ok, ok']; rfl, fun later u rest apart => ?_⟩
          have closing := Spells.symbol .closeParen rest
          have right := spells' _ _ closing (.symbol .closeParen later)
          have operation := (Spells.symbol s right.space).space
          have whole := Spells.symbol .openParen (spells _ _ operation (.blank _))
          simpa [Symbol.char] using whole
      | @assignment name t u value =>
          rw [Tree.unparse, height]
          rcases ih value (fun l member => valid l (by simp [member])) with
            ⟨deep, low⟩ | ⟨text, ok, spells⟩
          · exact .inl ⟨by rw [deep]; rfl, by omega⟩
          · refine .inr ⟨_, by rw [ok]; rfl, fun later u rest apart => ?_⟩
            have sign := (Spells.symbol .assign (spells later u rest apart).space).space
            have target := Spells.word (valid (.identifier name) (by simp))
              (Text.Apart.carries (.blank _) _) sign
            simpa [Lexeme.spelled, Symbol.char] using target

/-! ## Showing -/

theorem display_succ (depth : Nat) (indent : Int) (t : Tree) :
    display (depth + 1) indent t =
      match t.detail with
      | .error e => .error e
      | .ok detail =>
          match t.children.mapM (display depth (indent + 1)) with
          | .error e => .error e
          | .ok shown => .ok (block indent t.sort detail shown) := rfl

theorem display_reference (depth : Nat) (indent : Int) (name : Text) :
    display (depth + 1) indent (.reference name) =
      .ok (block indent (sort (.reference name)) name []) := rfl

/-- Showing fails by depth alone, and only below the height of the tree. -/
theorem Written.display {t : Tree} {w : List Lexeme} (written : t.Written w)
    (valid : ∀ l ∈ w, l.Valid) (depth : Nat) (indent : Int) :
    (display depth indent t = .error .tooDeep ∧ depth < t.height) ∨
    ∃ shown, display depth indent t = .ok shown := by
  induction depth generalizing t w indent with
  | zero => exact .inl ⟨rfl, height_pos t⟩
  | succ depth ih =>
      cases written with
      | @literal n =>
          rw [display_succ, detail, literal_text (valid _ (by simp))]
          exact .inr ⟨_, rfl⟩
      | reference => exact .inr ⟨_, rfl⟩
      | @unary l t u operator operand =>
          obtain ⟨s, rfl, char⟩ := @Level.operator_symbol .additive _ operator
          rw [display_succ, detail, char, height]
          rcases ih operand (fun l member => valid l (by simp [member])) (indent + 1) with
            ⟨deep, low⟩ | ⟨x, ok⟩
          · exact .inl ⟨by simp [children, deep, Except.map, bind, Except.bind], by omega⟩
          · exact .inr (by simp [children, ok, Except.map, bind, Except.bind, pure, Except.pure])
      | @binary l left right u v level operator first second =>
          obtain ⟨s, rfl, char⟩ := Level.operator_symbol operator
          rw [display_succ, detail, char, height]
          rcases ih first (fun l member => valid l (by simp [member])) (indent + 1) with
            ⟨deep, low⟩ | ⟨x, ok⟩
          · exact .inl ⟨by simp [children, deep, Except.map, bind, Except.bind], by omega⟩
          rcases ih second (fun l member => valid l (by simp [member])) (indent + 1) with
            ⟨deep, low⟩ | ⟨y, ok'⟩
          · exact .inl ⟨by simp [children, ok, deep, Except.map, bind, Except.bind], by omega⟩
          · exact .inr (by
              simp [children, ok, ok', Except.map, bind, Except.bind, pure, Except.pure])
      | @assignment name t u value =>
          rw [display_succ, detail, height]
          rcases ih value (fun l member => valid l (by simp [member])) (indent + 1) with
            ⟨deep, low⟩ | ⟨x, ok⟩
          · refine .inl ⟨?_, by omega⟩
            cases depth with
            | zero => rfl
            | succ depth => simp [children, display_reference, deep, bind, Except.bind]
          · cases depth with
            | zero => cases ok
            | succ depth =>
                refine .inr ?_
                simp [children, display_reference, ok, bind, Except.bind, pure, Except.pure]

theorem exists_of_mapM_ok {f : Tree → Except Failure Text} {ts : List Tree} {shown : List Text}
    (ok : ts.mapM f = .ok shown) : ∀ t ∈ ts, ∃ x, f t = .ok x := by
  induction ts generalizing shown with
  | nil => nofun
  | cons first rest ih =>
      rw [List.mapM_cons] at ok
      cases here : f first with
      | error e =>
          rw [here] at ok
          cases ok
      | ok x =>
          rw [here] at ok
          cases later : rest.mapM f with
          | error e => simp [later, bind, Except.bind] at ok
          | ok more => exact List.forall_mem_cons.mpr ⟨⟨x, here⟩, ih later⟩

/-- What is shown fits into the allowance. -/
theorem height_le_of_display {depth : Nat} {indent : Int} {t : Tree} {shown : Text}
    (ok : display depth indent t = .ok shown) : t.height ≤ depth := by
  induction depth generalizing indent t shown with
  | zero => cases ok
  | succ depth ih =>
      rw [display_succ] at ok
      split at ok
      · cases ok
      · split at ok
        · cases ok
        · rename_i parts
          have low : ∀ child ∈ t.children, child.height ≤ depth := by
            intro child member
            obtain ⟨x, inner⟩ := exists_of_mapM_ok parts child member
            exact ih inner
          cases t <;> simp_all [children, height]

end Tree
end Abacus
