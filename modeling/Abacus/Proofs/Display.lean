/- # What is shown stands for one tree

`Tree.Shows indent t u` lists how the trees of texts are shown, one rule for each sort of node.  It
is what `Tree.display` gives (`Tree.WellFormed.shows`).

The shown trees are free of prefixes: what is shown of a tree can be split off the front of any
longer text, and in one way only (`Tree.Shows.split`).  For the sort of a node is a word in front of
a parenthesis, its detail ends at a mark that no detail holds, and where the children stand is then
told by the sort alone.  The indentation is not needed for this, so that it makes no difference if
it is negative and collapses.  From this follows `Tree.display_injective`: two trees of texts that
are shown alike are the same tree. -/
import Abacus.Proofs.WellFormed

namespace Abacus
set_option autoImplicit false

namespace Tree

inductive Shows : Int → Tree → Text → Prop
  | literal {indent : Int} (n : Nat) :
      Shows indent (.literal (.int n)) (block indent "NumberLiteral".toList (Text.ofNat n) [])
  | reference {indent : Int} {name : Text} (letters : ∀ c ∈ name, c.isAlpha) :
      Shows indent (.reference name) (block indent "Variable".toList name [])
  | unary {indent : Int} {operator : Token.Kind} {c : Char} {t : Tree} {u : Text}
      (char : operatorChar operator = .ok c) (operand : Shows (indent + 1) t u) :
      Shows indent (.unary operator t) (block indent "UnaryOp".toList (Text.inQuotes [c]) [u])
  | binary {indent : Int} {operator : Token.Kind} {c : Char} {left right : Tree} {u v : Text}
      (char : operatorChar operator = .ok c) (first : Shows (indent + 1) left u)
      (second : Shows (indent + 1) right v) :
      Shows indent (.binary operator left right)
        (block indent "BinaryOp".toList (Text.inQuotes [c]) [u, v])
  | assignment {indent : Int} {target value : Tree} {u v : Text}
      (first : Shows (indent + 1) target u) (second : Shows (indent + 1) value v) :
      Shows indent (.assignment target value) (block indent "Assignment".toList [] [u, v])

/-! ## What is shown -/

theorem forall₂_of_mapM_ok {f : Tree → Except Failure Text} {ts : List Tree} {parts : List Text}
    (ok : ts.mapM f = .ok parts) : List.Forall₂ (fun t u => f t = .ok u) ts parts := by
  induction ts generalizing parts with
  | nil =>
      cases ok
      exact .nil
  | cons t ts ih =>
      rw [List.mapM_cons] at ok
      cases here : f t with
      | error e => simp [here, bind, Except.bind] at ok
      | ok u =>
          cases later : ts.mapM f with
          | error e => simp [here, later, bind, Except.bind] at ok
          | ok more =>
              have same : u :: more = parts := by
                simpa [here, later, bind, Except.bind, pure, Except.pure] using ok
              rw [← same]
              exact .cons here (ih later)

/-- What is shown of a tree is made of its detail and of what is shown of its children. -/
theorem display_inversion {room : Nat} {indent : Int} {t : Tree} {u : Text}
    (shown : display (room + 1) indent t = .ok u) :
    ∃ detail parts, t.detail = .ok detail ∧
      List.Forall₂ (fun child part => display room (indent + 1) child = .ok part)
        t.children parts ∧
      u = block indent t.sort detail parts := by
  rw [display_succ] at shown
  cases found : t.detail with
  | error e => simp [found] at shown
  | ok detail =>
      cases ok : t.children.mapM (display room (indent + 1)) with
      | error e => simp [found, ok] at shown
      | ok parts =>
          refine ⟨detail, parts, rfl, forall₂_of_mapM_ok ok, ?_⟩
          simpa [found, ok] using shown.symm

theorem map_inQuotes {operator : Token.Kind} {detail : Text}
    (found : (operatorChar operator).map (fun c => Text.inQuotes [c]) = .ok detail) :
    ∃ c, operatorChar operator = .ok c ∧ detail = Text.inQuotes [c] := by
  cases char : operatorChar operator with
  | error e => simp [char, Except.map] at found
  | ok c => exact ⟨c, rfl, by simpa [char, Except.map] using found.symm⟩

/-- A well-formed tree is shown by the rules. -/
theorem WellFormed.shows {t : Tree} (wellFormed : t.WellFormed) {room : Nat} {indent : Int}
    {u : Text} (shown : display room indent t = .ok u) : Shows indent t u := by
  induction room generalizing indent t u with
  | zero => cases shown
  | succ room ih =>
      obtain ⟨detail, parts, found, children, rfl⟩ := display_inversion shown
      cases t with
      | literal value =>
          obtain ⟨n, rfl, few⟩ := wellFormed
          cases children
          have valid : (Token.Lexeme.integer n).Valid :=
            (Nat.length_toDigits_le_iff (by decide) (by decide)).mp few
          obtain rfl : Text.ofNat n = detail := by
            rw [Tree.detail, literal_text valid] at found
            exact Except.ok.inj found
          exact .literal n
      | reference name =>
          cases children
          cases found
          exact .reference wellFormed.2
      | unary operator operand =>
          obtain ⟨c, char, rfl⟩ := map_inQuotes found
          obtain ⟨u, _, ok, ended, rfl⟩ := List.forall₂_cons_left_iff.mp children
          cases ended
          exact .unary char (ih wellFormed.2 ok)
      | binary operator left right =>
          obtain ⟨-, wellLeft, wellRight⟩ := wellFormed
          obtain ⟨c, char, rfl⟩ := map_inQuotes found
          obtain ⟨u, _, ok, later, rfl⟩ := List.forall₂_cons_left_iff.mp children
          obtain ⟨v, _, ok', ended, rfl⟩ := List.forall₂_cons_left_iff.mp later
          cases ended
          exact .binary char (ih wellLeft ok) (ih wellRight ok')
      | assignment target value =>
          obtain ⟨-, wellTarget, wellValue⟩ := wellFormed
          cases found
          obtain ⟨u, _, ok, later, rfl⟩ := List.forall₂_cons_left_iff.mp children
          obtain ⟨v, _, ok', ended, rfl⟩ := List.forall₂_cons_left_iff.mp later
          cases ended
          exact .assignment (ih wellTarget ok) (ih wellValue ok')
      | stray s => cases wellFormed

end Tree

/-! ## Splitting off what is shown -/

/-- A word that ends at a mark outside of its class can be split off in one way only. -/
theorem Text.split_word {inClass : Char → Bool} (stop : Char) (outside : inClass stop = false)
    {w w' x y : Text} (all : ∀ c ∈ w, inClass c) (all' : ∀ c ∈ w', inClass c)
    (same : w ++ stop :: x = w' ++ stop :: y) : w = w' ∧ x = y := by
  have front : ∀ {u z : Text}, (∀ c ∈ u, inClass c) → (u ++ stop :: z).takeWhile inClass = u := by
    intro u z all
    refine takeWhile_run all fun c more ahead => ?_
    obtain ⟨rfl, -⟩ := List.cons.inj ahead
    exact outside
  obtain rfl : w = w' := by
    rw [← front all, same, front all']
  exact ⟨rfl, by simpa using same⟩

theorem Text.ofNat_injective {m n : Nat} (same : Text.ofNat m = Text.ofNat n) : m = n := by
  have back : ∀ k, Nat.ofDigitChars 10 (Text.ofNat k) 0 = k :=
    fun k => Nat.ofDigitChars_ten_toDigits
  rw [← back m, same, back]

namespace Tree

theorem operatorChar_injective {first second : Token.Kind} {c : Char}
    (char : operatorChar first = .ok c) (char' : operatorChar second = .ok c) : first = second := by
  unfold operatorChar at char char'
  split at char <;> cases char <;> split at char' <;> first | rfl | cases char'

theorem split_quoted {c c' : Char} {x y : Text}
    (same : Text.inQuotes [c] ++ x = Text.inQuotes [c'] ++ y) : c = c' ∧ x = y := by
  simpa [Text.inQuotes] using same

/-! A shown node in front of a text, with the parts of the node in their order. -/

theorem block_leaf (indent : Int) (sort detail v : Text) :
    block indent sort detail [] ++ v =
      margin indent ++ (sort ++ '(' :: (detail ++ ')' :: v)) := by
  simp [block]

theorem block_unary (indent : Int) (sort : Text) (c : Char) (u v : Text) :
    block indent sort (Text.inQuotes [c]) [u] ++ v =
      margin indent ++ (sort ++ '(' :: (Text.inQuotes [c] ++ (", nodes=[\n".toList ++
        (u ++ ('\n' :: margin indent ++ "])".toList ++ v))))) := by
  simp [block, Text.inQuotes, Text.join]

theorem block_binary (indent : Int) (sort : Text) (c : Char) (u v w : Text) :
    block indent sort (Text.inQuotes [c]) [u, v] ++ w =
      margin indent ++ (sort ++ '(' :: (Text.inQuotes [c] ++ (", nodes=[\n".toList ++
        (u ++ (",\n".toList ++ (v ++ ('\n' :: margin indent ++ "])".toList ++ w))))))) := by
  simp [block, Text.inQuotes, Text.join]

theorem block_assignment (indent : Int) (sort u v w : Text) :
    block indent sort [] [u, v] ++ w =
      margin indent ++ (sort ++ '(' :: ("nodes=[\n".toList ++
        (u ++ (",\n".toList ++ (v ++ ('\n' :: margin indent ++ "])".toList ++ w)))))) := by
  simp [block, Text.join]

@[simp] theorem sort_literal (value : Number) :
    sort (.literal value) = "NumberLiteral".toList := rfl

@[simp] theorem sort_reference (name : Text) : sort (.reference name) = "Variable".toList := rfl

@[simp] theorem sort_unary (operator : Token.Kind) (operand : Tree) :
    sort (.unary operator operand) = "UnaryOp".toList := rfl

@[simp] theorem sort_binary (operator : Token.Kind) (left right : Tree) :
    sort (.binary operator left right) = "BinaryOp".toList := rfl

@[simp] theorem sort_assignment (target value : Tree) :
    sort (.assignment target value) = "Assignment".toList := rfl

namespace Shows

variable {indent : Int} {t t' : Tree} {u u' v v' : Text}

/-- The front of what is shown is the sort of the node. -/
theorem front (shows : Shows indent t u) (v : Text) :
    ∃ x, u ++ v = margin indent ++ (t.sort ++ '(' :: x) := by
  cases shows with
  | literal n => exact ⟨_, block_leaf _ _ _ _⟩
  | reference letters => exact ⟨_, block_leaf _ _ _ _⟩
  | unary char operand => exact ⟨_, block_unary _ _ _ _ _⟩
  | binary char first second => exact ⟨_, block_binary _ _ _ _ _ _⟩
  | assignment first second => exact ⟨_, block_assignment _ _ _ _ _⟩

theorem sort_letters (shows : Shows indent t u) : ∀ c ∈ t.sort, c.isAlpha := by
  cases shows <;> simp

/-- Trees that are shown alike are of one sort. -/
theorem sort_eq (shows : Shows indent t u) (shows' : Shows indent t' u')
    (same : u ++ v = u' ++ v') : t.sort = t'.sort := by
  obtain ⟨x, front⟩ := shows.front v
  obtain ⟨x', front'⟩ := shows'.front v'
  rw [front, front'] at same
  exact (Text.split_word '(' (by decide) shows.sort_letters shows'.sort_letters
    (List.append_cancel_left same)).1

/-- What is shown of a tree can be split off in one way only. -/
theorem split (shows : Shows indent t u) (shows' : Shows indent t' u')
    (same : u ++ v = u' ++ v') : t = t' ∧ v = v' := by
  induction shows generalizing t' u' v v' with
  | literal n =>
      have sorts := sort_eq (.literal n) shows' same
      cases shows' with
      | literal n' =>
          rw [block_leaf, block_leaf] at same
          have inside : Text.ofNat n ++ ')' :: v = Text.ofNat n' ++ ')' :: v' := by simpa using same
          obtain ⟨digits, rfl⟩ :=
            Text.split_word ')' (by decide) (Text.ofNat_digits n) (Text.ofNat_digits n') inside
          rw [Text.ofNat_injective digits]
          exact ⟨rfl, rfl⟩
      | _ => simp at sorts
  | reference letters =>
      have sorts := sort_eq (.reference letters) shows' same
      cases shows' with
      | reference letters' =>
          rw [block_leaf, block_leaf] at same
          obtain ⟨rfl, rfl⟩ :=
            Text.split_word ')' (by decide) letters letters' (by simpa using same)
          exact ⟨rfl, rfl⟩
      | _ => simp at sorts
  | unary char operand ih =>
      have sorts := sort_eq (.unary char operand) shows' same
      cases shows' with
      | unary char' operand' =>
          rw [block_unary, block_unary] at same
          obtain ⟨rfl, inside⟩ := split_quoted (by simpa using same)
          obtain ⟨rfl, behind⟩ := ih operand' (by simpa using inside)
          rw [operatorChar_injective char char']
          exact ⟨rfl, by simpa using behind⟩
      | _ => simp at sorts
  | binary char first second ihFirst ihSecond =>
      have sorts := sort_eq (.binary char first second) shows' same
      cases shows' with
      | binary char' first' second' =>
          rw [block_binary, block_binary] at same
          obtain ⟨rfl, inside⟩ := split_quoted (by simpa using same)
          obtain ⟨rfl, between⟩ := ihFirst first' (by simpa using inside)
          obtain ⟨rfl, behind⟩ := ihSecond second' (by simpa using between)
          rw [operatorChar_injective char char']
          exact ⟨rfl, by simpa using behind⟩
      | _ => simp at sorts
  | assignment first second ihFirst ihSecond =>
      have sorts := sort_eq (.assignment first second) shows' same
      cases shows' with
      | assignment first' second' =>
          rw [block_assignment, block_assignment] at same
          obtain ⟨rfl, between⟩ := ihFirst first' (by simpa using same)
          obtain ⟨rfl, behind⟩ := ihSecond second' (by simpa using between)
          exact ⟨rfl, by simpa using behind⟩
      | _ => simp at sorts

end Shows

/-! ## Trees of texts -/

/-- Nesting apart, the tree of a text is shown, and by the rules. -/
theorem shows_of_parse {depth room : Nat} {indent : Int} {text : Text} {t : Tree}
    (parsed : parse depth text = .ok t) (shallow : display room indent t ≠ .error .tooDeep) :
    ∃ u, display room indent t = .ok u ∧ Shows indent t u := by
  obtain ⟨w, written, valid⟩ := writable_of_parse parsed
  rcases written.display valid room indent with ⟨deep, -⟩ | ⟨u, ok⟩
  · exact absurd deep shallow
  · exact ⟨u, ok, (wellFormed_of_parse parsed).shows ok⟩

/-- Nesting apart, the trees of texts are shown, at whatever indentation, and two of them that are
shown alike are the same tree. -/
theorem display_injective {depth depth' : Nat} {text text' : Text} {t t' : Tree}
    (parsed : parse depth text = .ok t) (parsed' : parse depth' text' = .ok t') (indent : Int)
    (room room' : Nat) (shallow : display room indent t ≠ .error .tooDeep)
    (shallow' : display room' indent t' ≠ .error .tooDeep) :
    ∃ shown shown', display room indent t = .ok shown ∧ display room' indent t' = .ok shown' ∧
      (shown = shown' → t = t') := by
  obtain ⟨u, ok, shows⟩ := shows_of_parse parsed shallow
  obtain ⟨u', ok', shows'⟩ := shows_of_parse parsed' shallow'
  refine ⟨u, u', ok, ok', fun same => ?_⟩
  exact (shows.split shows' (congrArg (· ++ []) same)).1

/-- Where the margin collapses, the place of the parentheses is still shown. -/
theorem display_injective_collapsed :
    ∃ t t' shown shown', parse 20 "a - (b - c)".toList = .ok t ∧
      parse 20 "a - b - c".toList = .ok t' ∧ display 3 (-2) t = .ok shown ∧
      display 3 (-2) t' = .ok shown' ∧ shown ≠ shown' := by
  have parsed : parse 20 "a - (b - c)".toList =
      .ok (.binary (.symbol .minus) (.reference "a".toList)
        (.binary (.symbol .minus) (.reference "b".toList) (.reference "c".toList))) := by cbv
  have parsed' : parse 20 "a - b - c".toList =
      .ok (.binary (.symbol .minus)
        (.binary (.symbol .minus) (.reference "a".toList) (.reference "b".toList))
        (.reference "c".toList)) := by cbv
  obtain ⟨shown, shown', ok, ok', same⟩ := display_injective parsed parsed' (-2) 3 3
    (fun deep => by cases deep) (fun deep => by cases deep)
  refine ⟨_, _, shown, shown', parsed, parsed', ok, ok', fun alike => ?_⟩
  simpa using same alike

end Tree
end Abacus
