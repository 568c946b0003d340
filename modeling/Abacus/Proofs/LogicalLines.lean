/- # Logical lines

A line is joined to the logical line before it, dropped, or starts a logical line of its own
(`Script.Step`).  Whichever it is, a logical line carries the number of the last line in it, and so
the numbers of a script increase: no two logical lines of a file can be taken for one another
(`Script.ofLines_ordered`).

The texts of the logical lines can be read off from the front (`Script.texts_ofLines`), with no more
than the text that waits for the next line at hand.  The last section has the lines of a text
themselves: lines without line ends make a text, with an end each or with ends between them. -/
import Mathlib
import Abacus.Script

namespace Abacus.Script
set_option autoImplicit false

/-- What taking one line into a script can come to. -/
inductive Step (script : Script) (number : Int) (line : Text) : Script → Prop
  | joined {earlier : List LogicalLine} {previous : LogicalLine} (continuing : script.continuing)
      (lines : script.lines = earlier ++ [previous]) :
      Step script number line
        ⟨earlier ++ [⟨previous.text ++ [' '] ++ (clean line).trim, number⟩],
          unclosed (previous.text ++ [' '] ++ (clean line).trim)⟩
  | dropped (blank : (clean line).blank) :
      Step script number line { script with continuing := false }
  | started (written : (clean line).blank = false) :
      Step script number line ⟨script.lines ++ [⟨clean line, number⟩], unclosed (clean line)⟩

theorem step_cases (script : Script) (number : Int) (line : Text) :
    Step script number line (script.step number line).2 := by
  unfold step
  dsimp only
  split
  · rename_i previous continuing last
    obtain ⟨earlier, lines⟩ := List.getLast?_eq_some_iff.mp last
    rw [lines, List.dropLast_concat]
    exact .joined continuing lines
  · split
    · rename_i blank
      exact .dropped blank
    · rename_i written
      exact .started (by simpa using written)

/-- The logical lines are numbered upwards, below the number of the next line, and none is empty. -/
structure Ordered (number : Int) (script : Script) : Prop where
  below : ∀ line ∈ script.lines, line.number < number
  sorted : script.lines.Pairwise fun first second => first.number < second.number
  written : ∀ line ∈ script.lines, line.text ≠ []

theorem Ordered.concat {number : Int} {script : Script} {earlier : List LogicalLine} {text : Text}
    (ordered : Ordered number script) (part : earlier.Sublist script.lines) (written : text ≠ [])
    (continuing : Bool) : Ordered (number + 1) ⟨earlier ++ [⟨text, number⟩], continuing⟩ := by
  refine ⟨fun line member => ?_, ?_, fun line member => ?_⟩
  · rcases List.mem_append.mp member with member | member
    · have := ordered.below line (part.subset member)
      omega
    · obtain rfl := List.mem_singleton.mp member
      show number < number + 1
      omega
  · refine List.pairwise_append.mpr ⟨ordered.sorted.sublist part, List.pairwise_singleton _ _, ?_⟩
    intro line member last isLast
    obtain rfl := List.mem_singleton.mp isLast
    exact ordered.below line (part.subset member)
  · rcases List.mem_append.mp member with member | member
    · exact ordered.written line (part.subset member)
    · obtain rfl := List.mem_singleton.mp member
      exact written

theorem Ordered.step {number : Int} {script : Script} (ordered : Ordered number script)
    (line : Text) : Ordered (number + 1) (script.step number line).2 := by
  have taken := step_cases script number line
  generalize (script.step number line).2 = after at taken
  cases taken with
  | @joined earlier previous continuing lines =>
      refine ordered.concat ?_ (by simp) _
      rw [lines]
      exact List.sublist_append_left earlier [previous]
  | dropped blank =>
      refine ⟨fun line member => ?_, ordered.sorted, ordered.written⟩
      have := ordered.below line member
      omega
  | started written =>
      refine ordered.concat (List.Sublist.refl _) ?_ _
      intro empty
      rw [empty] at written
      cases written

theorem Ordered.steps {number : Int} {script : Script} (ordered : Ordered number script)
    (lines : List Text) : Ordered (number + lines.length) (steps number lines script) := by
  induction lines generalizing number script with
  | nil =>
      rw [List.length_nil, Int.natCast_zero, Int.add_zero]
      exact ordered
  | cons line rest ih =>
      have later := ih (ordered.step line)
      have numbers : number + 1 + rest.length = number + (line :: rest).length := by
        rw [List.length_cons]
        omega
      rw [numbers] at later
      exact later

/-- The logical lines of a file are numbered upwards, and none is empty. -/
theorem ofLines_ordered (lines : List Text) :
    ((ofLines lines).Pairwise fun first second => first.number < second.number) ∧
      ∀ line ∈ ofLines lines, line.text ≠ [] := by
  have start : Ordered 1 {} := ⟨by simp, List.Pairwise.nil, by simp⟩
  have ordered := start.steps lines
  exact ⟨ordered.sorted, ordered.written⟩

/-! ## Their texts -/

/-- The text that a line makes with the text that waits for it. -/
def joined : Option Text → Text → Text
  | none, line => clean line
  | some waiting, line => waiting ++ [' '] ++ (clean line).trim

/-- The texts of the logical lines that lines make with the text that waits for the first. -/
def texts : Option Text → List Text → List Text
  | waiting, [] => waiting.toList
  | waiting, line :: rest =>
    if unclosed (joined waiting line) then texts (some (joined waiting line)) rest
    else if (joined waiting line).blank then texts none rest
    else joined waiting line :: texts none rest

theorem not_blank_of_unclosed {t : Text} (more : unclosed t) : t.blank = false := by
  have opens : 0 < t.count '(' := by
    rw [unclosed, decide_eq_true_eq] at more
    omega
  rw [Text.blank, List.all_eq_false]
  exact ⟨'(', List.count_pos_iff.mp opens, by decide⟩

theorem closed_of_blank {t : Text} (blank : t.blank) : unclosed t = false := by
  by_contra more
  rw [Bool.not_eq_false] at more
  rw [not_blank_of_unclosed more] at blank
  cases blank

/-- A text that waits is never lost. -/
theorem joined_not_blank {waiting : Text} (more : unclosed waiting) (line : Text) :
    (joined (some waiting) line).blank = false := by
  have part := not_blank_of_unclosed more
  rw [Text.blank, List.all_eq_false] at part ⊢
  obtain ⟨c, member, plain⟩ := part
  exact ⟨c, by simp [joined, member], plain⟩

/-- One line, taken into a script whose last logical line may wait. -/
theorem step_joined (earlier : List LogicalLine) (waiting : Option LogicalLine)
    (more : ∀ w ∈ waiting, unclosed w.text) (number : Int) (line : Text) :
    (step ⟨earlier ++ waiting.toList, waiting.isSome⟩ number line).2 =
      if unclosed (joined (waiting.map (·.text)) line) then
        ⟨earlier ++ [⟨joined (waiting.map (·.text)) line, number⟩], true⟩
      else if (joined (waiting.map (·.text)) line).blank then ⟨earlier, false⟩
      else ⟨earlier ++ [⟨joined (waiting.map (·.text)) line, number⟩], false⟩ := by
  cases waiting with
  | none =>
      simp only [step, joined, Option.isSome_none, Option.map_none, Option.toList_none,
        List.append_nil]
      by_cases blank : (clean line).blank
      · simp [blank, closed_of_blank blank]
      · by_cases goes : unclosed (clean line) <;> simp [blank, goes]
  | some w =>
      have written := joined_not_blank (more w rfl) line
      simp only [joined] at written
      simp only [step, joined, Option.isSome_some, Option.map_some, Option.toList_some,
        List.getLast?_concat, List.dropLast_concat]
      by_cases goes : unclosed (w.text ++ [' '] ++ (clean line).trim)
      · simp only [goes, if_true]
      · simp only [goes, written, if_false, Bool.false_eq_true]

theorem texts_steps (lines : List Text) (number : Int) (earlier : List LogicalLine)
    (waiting : Option LogicalLine) (more : ∀ w ∈ waiting, unclosed w.text) :
    (steps number lines ⟨earlier ++ waiting.toList, waiting.isSome⟩).lines.map (·.text) =
      earlier.map (·.text) ++ texts (waiting.map (·.text)) lines := by
  induction lines generalizing number earlier waiting with
  | nil => cases waiting <;> simp [steps, texts]
  | cons line rest ih =>
      have stepped := step_joined earlier waiting more number line
      rw [steps, stepped, texts]
      by_cases goes : unclosed (joined (waiting.map (·.text)) line)
      · rw [if_pos goes, if_pos goes]
        exact ih (number + 1) earlier (some ⟨joined (waiting.map (·.text)) line, number⟩)
          (by rintro w ⟨⟩; exact goes)
      · rw [if_neg goes, if_neg goes]
        split
        · have later := ih (number + 1) earlier none (by simp)
          simpa using later
        · have later := ih (number + 1)
            (earlier ++ [⟨joined (waiting.map (·.text)) line, number⟩]) none (by simp)
          simpa using later

/-- The texts of the logical lines of a file. -/
theorem texts_ofLines (lines : List Text) : (ofLines lines).map (·.text) = texts none lines :=
  texts_steps lines 1 [] none (by simp)

end Abacus.Script

/-! ## The lines of a text -/

namespace Abacus.Text

/-- A text is made of lines, of which an empty last one may be left out. -/
def MadeOf (text : Text) (lines : List Text) : Prop :=
  lines = text.lines ∨ lines = text.lines ++ [[]]

/-- The character of a line that is no line end. -/
theorem linesFrom_cons {c : Char} (plain : c ≠ '\n' ∧ c ≠ '\r') (started rest : Text) :
    linesFrom started (c :: rest) = linesFrom (c :: started) rest := by
  rw [linesFrom]
  all_goals simp_all

/-- What stands in front of a line end is a line. -/
theorem linesFrom_line {line : Text} (plain : ∀ c ∈ line, c ≠ '\n' ∧ c ≠ '\r')
    (started rest : Text) :
    linesFrom started (line ++ '\n' :: rest) = (started.reverse ++ line) :: linesFrom [] rest := by
  induction line generalizing started with
  | nil => simp [linesFrom]
  | cons c line ih =>
      rw [List.cons_append, linesFrom_cons (plain c List.mem_cons_self),
        ih fun x member => plain x (List.mem_cons_of_mem _ member)]
      simp

/-- What stands at the end is a line unless it is empty. -/
theorem linesFrom_last {line : Text} (plain : ∀ c ∈ line, c ≠ '\n' ∧ c ≠ '\r') (started : Text)
    (nonempty : started ++ line ≠ []) : linesFrom started line = [started.reverse ++ line] := by
  induction line generalizing started with
  | nil => simp_all [linesFrom]
  | cons c line ih =>
      rw [linesFrom_cons (plain c List.mem_cons_self),
        ih (fun x member => plain x (List.mem_cons_of_mem _ member)) _ (by simp)]
      simp

theorem plain_char {line : Text} (plain : '\n' ∉ line ∧ '\r' ∉ line) :
    ∀ c ∈ line, c ≠ '\n' ∧ c ≠ '\r' := by
  rintro c member
  constructor
  · rintro rfl
    exact plain.1 member
  · rintro rfl
    exact plain.2 member

variable {lines : List Text} (plain : ∀ line ∈ lines, '\n' ∉ line ∧ '\r' ∉ line)

include plain

/-- Lines with an end each make a text. -/
theorem madeOf_ended : MadeOf (lines.map line).flatten lines := by
  refine .inl ?_
  induction lines with
  | nil => rfl
  | cons first rest ih =>
      have here := linesFrom_line (plain_char (plain first List.mem_cons_self)) []
        (rest.map line).flatten
      have later := ih fun other member => plain other (List.mem_cons_of_mem _ member)
      rw [List.map_cons, List.flatten_cons, line, List.append_assoc, List.singleton_append]
      exact (congrArg _ later).trans here.symm

/-- Lines with ends between them make a text. -/
theorem madeOf_joined : MadeOf (join ['\n'] lines) lines := by
  induction lines with
  | nil => exact .inl rfl
  | cons first rest ih =>
      have here := plain_char (plain first List.mem_cons_self)
      cases rest with
      | nil =>
          have single : join ['\n'] [first] = first := by simp [join]
          rw [single]
          by_cases empty : first = []
          · subst empty
            exact .inr rfl
          · exact .inl (linesFrom_last here [] (by simpa using empty)).symm
      | cons second rest =>
          have cut : (join ['\n'] (first :: second :: rest)).lines =
              first :: (join ['\n'] (second :: rest)).lines := by
            have split : join ['\n'] (first :: second :: rest) =
                first ++ '\n' :: join ['\n'] (second :: rest) := by simp [join]
            rw [split]
            exact linesFrom_line here [] _
          rw [MadeOf, cut]
          rcases ih fun other member => plain other (List.mem_cons_of_mem _ member) with
            same | same
          · exact .inl (congrArg _ same)
          · exact .inr (congrArg _ same)

end Abacus.Text
