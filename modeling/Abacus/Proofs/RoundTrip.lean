/- # Written and parsed back

A tree that was parsed is written with parentheses around binary operations and nowhere else.  So an
assignment that stood in parentheses loses them, and the question is which trees come back.

`Tree.parse_unparse_iff`: exactly those without an assignment below an operator.  One half is a
derivation of the written lexemes.  The other half takes such a derivation apart.  What is written
for an operand is derived as an operand or not at all (`Tree.Written.operand_eq`): an operand is
over behind its sign and its atom, the parenthesis of an atom is closed where the writer closed it,
and an assignment that is written bare would end at its name, in front of a "=" that nothing takes.
Hence both operands of a written operation are derived from what was written for them
(`Tree.Written.operation`), down to the leaves. -/
import Abacus.Proofs.Parentheses

namespace Abacus
set_option autoImplicit false

open Token (Lexeme lexemes)

namespace Tree

def hasAssignment : Tree → Bool
  | unary _ operand => operand.hasAssignment
  | binary _ left right => left.hasAssignment || right.hasAssignment
  | assignment _ _ => true
  | _ => false

def assignsBelowOperator : Tree → Bool
  | unary _ operand => operand.hasAssignment
  | binary _ left right => left.hasAssignment || right.hasAssignment
  | assignment target value => target.assignsBelowOperator || value.assignsBelowOperator
  | _ => false

theorem assignsBelowOperator_of_not_hasAssignment {t : Tree} (free : t.hasAssignment = false) :
    t.assignsBelowOperator = false := by
  cases t with
  | assignment target value => cases free
  | _ => exact free

end Tree

/-! ## A derivation of what is written -/

theorem Derives.operation {level : Level} {l : Lexeme} {u v : List Lexeme} {left right : Tree}
    (operator : level.isOperator l.kind) (first : Derives .unary u left)
    (second : Derives .unary v right) :
    Derives (.chain .additive) (u ++ l :: v) (.binary l.kind left right) := by
  have later : Derives (.rest level left) (l :: (v ++ [])) (.binary l.kind left right) :=
    .more operator (.operand_of_unary level second) .done
  rw [List.append_nil] at later
  have whole := Derives.chain (.operand_of_unary level first) later
  cases level with
  | additive => exact whole
  | multiplicative => exact @Derives.chain_of_operand _ _ .additive whole

theorem Tree.Written.derives_unary {t : Tree} {w : List Lexeme} (written : t.Written w)
    (free : t.hasAssignment = false) : Derives .unary w t := by
  induction written with
  | literal => exact .atom .integer
  | reference => exact .atom .identifier
  | unary operator operand ih => exact .sign operator (ih free)
  | binary operator first second ihFirst ihSecond =>
      rw [hasAssignment, Bool.or_eq_false_iff] at free
      have inner := Derives.operation operator (ihFirst free.1) (ihSecond free.2)
      exact .atom (.parentheses (.expression (.additive inner)))
  | assignment value ih => cases free

theorem Tree.Written.derives {t : Tree} {w : List Lexeme} (written : t.Written w)
    (outside : t.assignsBelowOperator = false) : Derives .expression w t := by
  induction written with
  | assignment value ih => exact .expression (.assign (ih outside))
  | literal => exact .expression_of_unary (.atom .integer)
  | reference => exact .expression_of_unary (.atom .identifier)
  | unary operator operand ih =>
      exact .expression_of_unary (derives_unary (.unary operator operand) outside)
  | binary operator first second ihFirst ihSecond =>
      exact .expression_of_unary (derives_unary (.binary operator first second) outside)

/-! ## Taking a derivation of what is written apart -/

theorem Derives.rest_nil {level : Level} {sofar t : Tree}
    (derived : Derives (.rest level sofar) [] t) : t = sofar := by
  cases derived
  rfl

/-- No "=" stands behind an operand of a chain, unless it stands behind the chain. -/
theorem Derives.rest_ne_assign {level : Level} {sofar t : Tree} {r x : List Lexeme}
    (derived : Derives (.rest level sofar) r t) (apart : ∀ more, x ≠ .symbol .assign :: more) :
    ∀ more, r ++ x ≠ .symbol .assign :: more := by
  intro more same
  rcases derived.rest_head with rfl | ⟨l, v, rfl, operator⟩
  · exact apart more same
  · obtain ⟨rfl, -⟩ := List.cons.inj same
    rw [level.not_isOperator_assign] at operator
    cases operator

theorem Derives.unary_of_not_sign {u v w : List Lexeme} {l : Lexeme} {t : Tree}
    (derived : Derives .unary u t) (same : u ++ v = l :: w) (plain : Rule.isSign l.kind = false) :
    Derives .atom u t := by
  cases derived with
  | sign operator operand =>
      obtain ⟨rfl, -⟩ := List.cons.inj same
      rw [operator] at plain
      cases plain
  | atom whole => exact whole

theorem Derives.unary_of_sign {u v w : List Lexeme} {l : Lexeme} {t : Tree}
    (derived : Derives .unary u t) (same : u ++ v = l :: w) (sign : Rule.isSign l.kind) :
    ∃ u' t', u = l :: u' ∧ t = .unary l.kind t' ∧ Derives .unary u' t' := by
  cases derived with
  | sign operator operand =>
      obtain ⟨rfl, -⟩ := List.cons.inj same
      exact ⟨_, _, rfl, rfl, operand⟩
  | atom whole =>
      obtain ⟨k, v, rfl, plain⟩ := whole.atom_head
      obtain ⟨rfl, -⟩ := List.cons.inj same
      rw [sign] at plain
      cases plain

namespace Tree.Written

/-- An operand that starts where a tree is written is all that is written, or it ends in front of
"=". -/
theorem operand_eq {t s : Tree} {w e x y : List Lexeme} (written : t.Written w)
    (derived : Derives .unary e s) (same : e ++ x = w ++ y) :
    e = w ∨ ∃ more, x = .symbol .assign :: more := by
  induction written generalizing e x y s with
  | literal =>
      have atom := derived.unary_of_not_sign same rfl
      cases atom with
      | integer => exact .inl (by rw [(List.cons.inj same).1])
      | identifier => cases (List.cons.inj same).1
      | parentheses inner => cases (List.cons.inj same).1
  | reference =>
      have atom := derived.unary_of_not_sign same rfl
      cases atom with
      | integer => cases (List.cons.inj same).1
      | identifier => exact .inl (by rw [(List.cons.inj same).1])
      | parentheses inner => cases (List.cons.inj same).1
  | unary operator operand ih =>
      obtain ⟨e, s, rfl, -, derived⟩ := derived.unary_of_sign same operator
      rcases ih derived (List.cons.inj same).2 with rfl | assigns
      · exact .inl rfl
      · exact .inr assigns
  | @binary l left right u v level operator first second =>
      have atom := derived.unary_of_not_sign same rfl
      obtain ⟨inside, rfl, inner⟩ := atom.of_openParen same
      have tails : inside ++ .symbol .closeParen :: x =
          (u ++ l :: v) ++ .symbol .closeParen :: y := by
        simpa using same
      have balanced := first.balanced.append
        (.cons (Level.operator_opens operator) second.balanced)
      obtain ⟨rfl, -⟩ := inner.balanced.cancel balanced tails
      exact .inl rfl
  | assignment value ih =>
      obtain rfl := derived.name_before_assign rfl same
      exact .inr ⟨_, (List.cons.inj same).2⟩

/-- The same for an operand of a chain, where no operator behind what is written carries it on. -/
theorem chain_operand_eq {level : Level} {t s : Tree} {w e x y : List Lexeme}
    (written : t.Written w) (derived : Derives level.operand e s) (same : e ++ x = w ++ y)
    (apart : ∀ more, x ≠ .symbol .assign :: more)
    (ends : ∀ l more, y = l :: more → level.operand.extends l.kind = false) :
    e = w ∧ Derives .unary w s := by
  cases level with
  | multiplicative =>
      rcases written.operand_eq derived same with rfl | ⟨more, assigns⟩
      · exact ⟨rfl, derived⟩
      · exact absurd assigns (apart more)
  | additive =>
      cases derived with
      | @chain _ e r first _ operand later =>
          rw [List.append_assoc] at same
          rcases written.operand_eq operand same with rfl | ⟨more, assigns⟩
          · have behind := List.append_cancel_left same
            rcases later.rest_head with rfl | ⟨l, v, rfl, operator⟩
            · obtain rfl := later.rest_nil
              exact ⟨List.append_nil _, operand⟩
            · have stops : Level.multiplicative.isOperator l.kind = false :=
                ends l (v ++ x) behind.symm
              rw [operator] at stops
              cases stops
          · exact absurd assigns (later.rest_ne_assign apart more)

/-- A chain that starts where an operation is written without its parentheses is all of this, and
its operands are what is written for the operands. -/
theorem operation {level : Level} {l : Lexeme} {left right s : Tree} {u v e x : List Lexeme}
    (first : left.Written u) (second : right.Written v) (operator : level.isOperator l.kind)
    (derived : Derives (.chain level) e s) (same : e ++ x = u ++ l :: v)
    (apart : ∀ more, x ≠ .symbol .assign :: more)
    (ends : ∀ k more, x = k :: more → level.isOperator k.kind = false) :
    x = [] ∧ ∃ a b, s = .binary l.kind a b ∧ Derives .unary u a ∧ Derives .unary v b := by
  cases derived with
  | @chain _ e r a _ operand later =>
      rw [List.append_assoc] at same
      obtain ⟨rfl, left⟩ := first.chain_operand_eq operand same (later.rest_ne_assign apart)
        (fun k more behind => by cases behind; exact level.operand_stops operator)
      have behind := List.append_cancel_left same
      cases later with
      | done =>
          have stops := ends l v behind
          rw [operator] at stops
          cases stops
      | @more _ k e r _ b _ operator' operand later =>
          obtain ⟨rfl, -⟩ := List.cons.inj behind
          have tails : e ++ (r ++ x) = v ++ [] := by simpa using behind
          obtain ⟨rfl, right⟩ := second.chain_operand_eq operand tails
            (later.rest_ne_assign apart) (fun k more behind => by cases behind)
          obtain ⟨rfl, rfl⟩ := List.append_eq_nil_iff.mp (List.append_cancel_left tails)
          obtain rfl := later.rest_nil
          exact ⟨rfl, a, b, rfl, left, right⟩

theorem operands_of_binary {level : Level} {l : Lexeme} {left right a b : Tree}
    {u v : List Lexeme} (first : left.Written u) (second : right.Written v)
    (operator : level.isOperator l.kind)
    (derived : Derives .expression (u ++ l :: v) (.binary l.kind a b)) :
    Derives .unary u a ∧ Derives .unary v b := by
  cases derived with
  | expression whole =>
    generalize same : u ++ l :: v = e at whole
    cases whole with
    | additive chain =>
      cases level with
      | additive =>
          obtain ⟨-, a, b, tree, left, right⟩ := first.operation second operator chain
            (by rw [same, List.append_nil]) (by simp) (by simp)
          cases tree
          exact ⟨left, right⟩
      | multiplicative =>
          cases chain with
          | @chain _ e r s _ operand later =>
              -- an operator of the outer chain is none of the inner
              have ends : ∀ k more, r = k :: more → Rule.isScale k.kind = false := by
                intro k more here
                rcases later.rest_head with rfl | ⟨k, more, rfl, sign⟩
                · cases here
                · cases here
                  exact Level.operand_stops .additive sign
              obtain ⟨rfl, a, b, rfl, left, right⟩ := first.operation second operator operand
                same.symm (by simpa using @Derives.rest_ne_assign _ _ _ _ [] later (by simp)) ends
              cases later.rest_nil
              exact ⟨left, right⟩

/-- What is written is derived as an operand only if there is no assignment in it: this would have
to be derived bare. -/
theorem not_hasAssignment {t : Tree} {w : List Lexeme} (written : t.Written w)
    (derived : Derives .unary w t) : t.hasAssignment = false := by
  induction written with
  | literal | reference => rfl
  | unary operator operand ih =>
      obtain ⟨u, t, whole, tree, derived⟩ := derived.unary_of_sign (List.append_nil _) operator
      cases whole
      cases tree
      exact ih derived
  | binary operator first second ihFirst ihSecond =>
      have atom := derived.unary_of_not_sign (List.append_nil _) rfl
      obtain ⟨inside, whole, inner⟩ := atom.of_openParen (List.append_nil _)
      obtain ⟨rfl, -⟩ := List.append_inj' (List.cons.inj whole).2 rfl
      obtain ⟨left, right⟩ := first.operands_of_binary second operator inner
      rw [hasAssignment, ihFirst left, ihSecond right]
      rfl
  | assignment value ih =>
      cases derived.name_before_assign rfl (List.append_nil _)

theorem unary_of_chain {t s : Tree} {w : List Lexeme} (written : t.Written w)
    (derived : Derives (.chain .additive) w s) : Derives .unary w s := by
  cases derived with
  | @chain _ e r first _ operand later =>
      obtain ⟨whole, unary⟩ := written.chain_operand_eq operand (List.append_nil _).symm
        (by simpa using @Derives.rest_ne_assign _ _ _ _ [] later (by simp))
        (fun l more here => by cases here)
      have empty : r = [] := by simpa using whole
      subst empty
      cases later.rest_nil
      exact unary

theorem assignsBelowOperator_of_chain {t : Tree} {w : List Lexeme} (written : t.Written w)
    (derived : Derives (.chain .additive) w t) : t.assignsBelowOperator = false := by
  apply assignsBelowOperator_of_not_hasAssignment
  exact written.not_hasAssignment (written.unary_of_chain derived)

theorem assignsBelowOperator_of_derives {t : Tree} {w : List Lexeme} (written : t.Written w)
    (derived : Derives .expression w t) : t.assignsBelowOperator = false := by
  induction written with
  | literal | reference => rfl
  | unary operator operand =>
      cases derived with
      | expression whole =>
        cases whole with
        | additive chain => exact assignsBelowOperator_of_chain (.unary operator operand) chain
  | binary operator first second =>
      cases derived with
      | expression whole =>
        cases whole with
        | additive chain =>
            exact assignsBelowOperator_of_chain (.binary operator first second) chain
  | assignment value ih =>
      cases derived with
      | expression whole =>
        cases whole with
        | assign derived => exact ih derived
        | additive chain => exact assignsBelowOperator_of_chain (.assignment value) chain

theorem derives_iff {t : Tree} {w : List Lexeme} (written : t.Written w) :
    Derives .expression w t ↔ t.assignsBelowOperator = false :=
  ⟨written.assignsBelowOperator_of_derives, written.derives⟩

end Tree.Written

/-! ## Texts -/

/-- A tree that was parsed can be written, unless it is too deep for this, and what is written is
parsed back to the same tree, unless the nesting is too deep, exactly if no assignment stands below
an operator in it. -/
theorem Tree.parse_unparse_iff (depth : Nat) (text : Text) (t : Tree)
    (parsed : parse depth text = .ok t) :
    (∀ d, t.height ≤ d → unparse d t ≠ .error .tooDeep) ∧
    ∀ d, unparse d t ≠ .error .tooDeep → ∃ w, unparse d t = .ok w ∧
      (∀ d', ampleDepth w ≤ d' → parse d' w ≠ .error .tooDeep) ∧
      ∀ d', parse d' w ≠ .error .tooDeep →
        (parse d' w = .ok t ↔ t.assignsBelowOperator = false) := by
  obtain ⟨w, written, valid⟩ := writable_of_parse parsed
  refine ⟨fun d high deep => ?_, fun d shallow => ?_⟩
  · rcases written.unparse valid d with ⟨-, low⟩ | ⟨text, ok, -⟩
    · omega
    · rw [ok] at deep
      cases deep
  · rcases written.unparse valid d with ⟨deep, -⟩ | ⟨text, ok, spells⟩
    · exact absurd deep shallow
    · have spelled := spells [] [] .done .nil
      rw [List.append_nil, List.append_nil] at spelled
      obtain ⟨found, stop, tokens, last, rfl⟩ := spelled.tokens
      refine ⟨text, ok, fun d' => parse_ample, fun d' shallow' => ?_⟩
      rw [← written.derives_iff]
      constructor
      · intro back
        obtain ⟨found', stop', tokens', -, derived⟩ := derives_of_parse back
        rw [tokens] at tokens'
        obtain ⟨rfl, -⟩ := List.append_inj' (Prod.mk.inj tokens').1 rfl
        exact derived
      · exact fun derived => parse_of_derives shallow' tokens last derived

/-- Bare, the assignment takes in the operation that it was an operand of; at the root it stays what
it was. -/
theorem parse_unparse_both_ways :
    Tree.parse 20 "(x = 2) * x".toList =
      .ok (.binary (.symbol .star) (.assignment (.reference "x".toList) (.literal (.int 2)))
        (.reference "x".toList)) ∧
    (∃ w, Tree.unparse 3 (.binary (.symbol .star)
        (.assignment (.reference "x".toList) (.literal (.int 2))) (.reference "x".toList)) = .ok w ∧
      ∀ d, Tree.parse d w ≠ .error .tooDeep → Tree.parse d w ≠
        .ok (.binary (.symbol .star) (.assignment (.reference "x".toList) (.literal (.int 2)))
          (.reference "x".toList))) ∧
    Tree.parse 20 "x = 2 * -x".toList =
      .ok (.assignment (.reference "x".toList) (.binary (.symbol .star) (.literal (.int 2))
        (.unary (.symbol .minus) (.reference "x".toList)))) ∧
    ∃ w, Tree.unparse 4 (.assignment (.reference "x".toList)
        (.binary (.symbol .star) (.literal (.int 2))
          (.unary (.symbol .minus) (.reference "x".toList)))) = .ok w ∧
      Tree.parse (Tree.ampleDepth w) w =
        .ok (.assignment (.reference "x".toList) (.binary (.symbol .star) (.literal (.int 2))
          (.unary (.symbol .minus) (.reference "x".toList)))) := by
  have misplaced : Tree.parse 20 "(x = 2) * x".toList =
      .ok (.binary (.symbol .star) (.assignment (.reference "x".toList) (.literal (.int 2)))
        (.reference "x".toList)) := by cbv
  have placed : Tree.parse 20 "x = 2 * -x".toList =
      .ok (.assignment (.reference "x".toList) (.binary (.symbol .star) (.literal (.int 2))
        (.unary (.symbol .minus) (.reference "x".toList)))) := by cbv
  refine ⟨misplaced, ?_, placed, ?_⟩
  · obtain ⟨deepEnough, round⟩ := Tree.parse_unparse_iff 20 _ _ misplaced
    obtain ⟨w, ok, -, back⟩ := round 3 (deepEnough 3 (by decide))
    exact ⟨w, ok, fun d shallow same => absurd ((back d shallow).mp same) (by decide)⟩
  · obtain ⟨deepEnough, round⟩ := Tree.parse_unparse_iff 20 _ _ placed
    obtain ⟨w, ok, ample, back⟩ := round 4 (deepEnough 4 (by decide))
    exact ⟨w, ok, (back _ (ample _ (Nat.le_refl _))).mpr (by decide)⟩

end Abacus
