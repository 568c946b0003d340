/- # The rules without recursion

A rule of the parser works in stretches: from its call to the first call that it makes, then from
the return of each call to the next one, and in the end to its own return.  `Job.stretch` is what is
done in one stretch.  Where a rule calls another one the stretch is over, and a `Frame` says how to
go on with the tree that comes back; a round of a chain is such a frame as well.  So there is
neither recursion nor a loop in it, and no allowance.

`Job.Finishes` puts stretches together.  It is what a rule does if calls may nest as deep and chains
be as long as they like: what it holds of is over after the calls that it lists.  No job can finish
in two ways (`Job.Finishes.unique`).

The rules with an allowance do the same stretches (`Rule.run_stretch`, `Frame.resume_stretch`). -/
import Abacus.Proofs.Recognition

namespace Abacus
set_option autoImplicit false

def Level.rule : Level → Rule
  | additive => .multiplicative
  | multiplicative => .unary

/-- How a rule goes on with the tree that comes back from a call. -/
inductive Frame where
  /-- It returns the tree with something around it. -/
  | wrap (join : Tree → Tree)
  /-- The tree is an operand.  Joined with those before, it is what the next round starts from. -/
  | operand (level : Level) (join : Tree → Tree)
  /-- The closing parenthesis has to follow. -/
  | parentheses

/-- How a stretch ends. -/
inductive Next where
  | done (t : Tree)
  | call (rule : Rule) (frame : Frame)

/-- What is to be done at a cursor: a rule is called, or a tree comes back from a call. -/
inductive Job where
  | rule (rule : Rule)
  | back (frame : Frame) (t : Tree)

namespace Job

/-- One round of a chain whose operands so far gave `t`. -/
def round (level : Level) (t : Tree) : Cursor.Action Next := do
  let kind := (← get).current.kind
  if level.isOperator kind then
    Cursor.advance
    return .call level.rule (.operand level (.binary kind t))
  else return .done t

/-- What is done up to the next call or to the return. -/
def stretch : Job → Cursor.Action Next
  | rule .expression => return .call .assignment (.wrap id)
  | rule .assignment => do
    let current := (← get).current
    match current.lexeme with
    | .identifier name =>
      if (← Cursor.peek).kind = .symbol .assign then
        let _ ← Cursor.expect .identifier
        let _ ← Cursor.expect (.symbol .assign)
        return .call .expression (.wrap (.assignment (.reference name)))
      else return .call .additive (.wrap id)
    | _ => return .call .additive (.wrap id)
  | rule .additive => return .call .multiplicative (.operand .additive id)
  | rule .multiplicative => return .call .unary (.operand .multiplicative id)
  | rule .unary => do
    let kind := (← get).current.kind
    if Rule.isSign kind then
      Cursor.advance
      return .call .unary (.wrap (.unary kind))
    else return .call .atom (.wrap id)
  | rule .atom => do
    let current := (← get).current
    match current.lexeme with
    | .integer value =>
      Cursor.advance
      return .done (.literal (.int value))
    | .identifier name =>
      Cursor.advance
      return .done (.reference name)
    | .symbol .openParen =>
      Cursor.advance
      return .call .expression .parentheses
    | _ => Cursor.reject
  | back (.wrap join) t => return .done (join t)
  | back (.operand level join) t => round level (join t)
  | back .parentheses t => do
    let _ ← Cursor.expect (.symbol .closeParen)
    return .done t

end Job

structure Call where
  rule : Rule
  cursor : Cursor

/-- Started at a cursor, a job makes these calls, one behind the other, those of the rules that it
calls included, and comes to this result. -/
inductive Job.Finishes :
    Job → Cursor → List Call → EStateM.Result Failure Cursor Tree → Prop
  | fails {job : Job} {c after : Cursor} {e : Failure}
      (failed : job.stretch c = .error e after) : Finishes job c [] (.error e after)
  | returns {job : Job} {c after : Cursor} {t : Tree}
      (done : job.stretch c = .ok (.done t) after) : Finishes job c [] (.ok t after)
  | breaks {job : Job} {c there after : Cursor} {rule : Rule} {frame : Frame}
      {calls : List Call} {e : Failure} (called : job.stretch c = .ok (.call rule frame) there)
      (inner : Finishes (.rule rule) there calls (.error e after)) :
      Finishes job c (⟨rule, there⟩ :: calls) (.error e after)
  | goesOn {job : Job} {c there behind : Cursor} {rule : Rule} {frame : Frame} {t : Tree}
      {calls later : List Call} {r : EStateM.Result Failure Cursor Tree}
      (called : job.stretch c = .ok (.call rule frame) there)
      (inner : Finishes (.rule rule) there calls (.ok t behind))
      (rest : Finishes (.back frame t) behind later r) :
      Finishes job c (⟨rule, there⟩ :: (calls ++ later)) r

/-- A job comes to one result, with one list of calls. -/
theorem Job.Finishes.unique {job : Job} {c : Cursor} {calls calls' : List Call}
    {r r' : EStateM.Result Failure Cursor Tree} (first : job.Finishes c calls r)
    (second : job.Finishes c calls' r') : calls' = calls ∧ r' = r := by
  induction first generalizing calls' r' with
  | fails failed =>
      cases second with
      | fails failed' => cases failed.symm.trans failed'; exact ⟨rfl, rfl⟩
      | returns done | breaks done | goesOn done => cases failed.symm.trans done
  | returns done =>
      cases second with
      | returns done' => cases done.symm.trans done'; exact ⟨rfl, rfl⟩
      | fails other | breaks other | goesOn other => cases done.symm.trans other
  | breaks called inner ih =>
      cases second with
      | fails other | returns other => cases called.symm.trans other
      | breaks called' inner' =>
          cases called.symm.trans called'
          obtain ⟨rfl, same⟩ := ih inner'
          exact ⟨rfl, same⟩
      | goesOn called' inner' rest' =>
          cases called.symm.trans called'
          cases (ih inner').2
  | goesOn called inner rest ihInner ihRest =>
      cases second with
      | fails other | returns other => cases called.symm.trans other
      | breaks called' inner' =>
          cases called.symm.trans called'
          cases (ihInner inner').2
      | goesOn called' inner' rest' =>
          cases called.symm.trans called'
          obtain ⟨rfl, same⟩ := ihInner inner'
          cases same
          obtain ⟨rfl, rfl⟩ := ihRest rest'
          exact ⟨rfl, rfl⟩

/-! ## The stretches at a cursor -/

namespace Job

theorem round_eq (level : Level) (t : Tree) (c : Cursor) :
    round level t c =
      if level.isOperator c.current.kind then
        (Cursor.advance >>= fun _ =>
          pure (.call level.rule (.operand level (.binary c.current.kind t)))) c
      else .ok (.done t) c := by
  rw [round]
  simp only [bind, EStateM.bind, get, getThe, MonadStateOf.get, EStateM.get]
  split <;> rfl

theorem stretch_unary (c : Cursor) :
    (rule .unary).stretch c =
      if Rule.isSign c.current.kind then
        (Cursor.advance >>= fun _ => pure (.call .unary (.wrap (.unary c.current.kind)))) c
      else .ok (.call .atom (.wrap id)) c := by
  rw [stretch]
  simp only [bind, EStateM.bind, get, getThe, MonadStateOf.get, EStateM.get]
  split <;> rfl

theorem stretch_atom (c : Cursor) :
    (rule .atom).stretch c =
      match c.current.lexeme with
      | .integer value => (Cursor.advance >>= fun _ => pure (.done (.literal (.int value)))) c
      | .identifier name => (Cursor.advance >>= fun _ => pure (.done (.reference name))) c
      | .symbol .openParen => (Cursor.advance >>= fun _ => pure (.call .expression .parentheses)) c
      | _ => .error (c.rejection c.current) c := by
  rw [stretch]
  simp only [bind, EStateM.bind, get, getThe, MonadStateOf.get, EStateM.get]
  cases c.current.lexeme with
  | symbol s => cases s <;> rfl
  | _ => rfl

theorem stretch_assignment (c : Cursor) :
    (rule .assignment).stretch c =
      match c.current.lexeme with
      | .identifier name =>
          (Cursor.peek >>= fun next =>
            if next.kind = .symbol .assign then
              Cursor.expect .identifier >>= fun _ => Cursor.expect (.symbol .assign) >>= fun _ =>
                pure (.call .expression (.wrap (.assignment (.reference name))))
            else pure (.call .additive (.wrap id))) c
      | _ => .ok (.call .additive (.wrap id)) c := by
  rw [stretch]
  simp only [bind, EStateM.bind, get, getThe, MonadStateOf.get, EStateM.get]
  cases c.current.lexeme <;> rfl

end Job

/-! ## Rules with an allowance -/

/-- Goes on behind a stretch: makes the call, if there is one, and resumes with its tree. -/
def Next.follow (call : Rule → Cursor.Action Tree) (resume : Frame → Tree → Cursor.Action Tree) :
    Next → Cursor.Action Tree
  | .done t => pure t
  | .call rule frame => call rule >>= resume frame

/-- Goes on with the tree that comes back from a call, with an allowance for the nesting of rules
and one for the rounds of a chain. -/
def Frame.resume (depth rounds : Nat) : Frame → Tree → Cursor.Action Tree
  | wrap join, t => pure (join t)
  | operand level join, t =>
    Rule.chain level.isOperator (Rule.run depth level.rule) rounds (join t)
  | parentheses, t => do
    let _ ← Cursor.expect (.symbol .closeParen)
    return t

/-- Goes on with the allowance for the rounds of a chain that a rule gives it. -/
def Frame.resumeFresh (depth : Nat) (frame : Frame) (t : Tree) : Cursor.Action Tree := fun c =>
  frame.resume depth (c.scanner.text.length + 1) t c

theorem follow_wrap (depth : Nat) (rule : Rule) (c : Cursor) :
    Next.follow (Rule.run depth) (Frame.resumeFresh depth) (.call rule (.wrap id)) c =
      Rule.run depth rule c := by
  have same : (Rule.run depth rule >>= fun t => pure (id t)) c = Rule.run depth rule c := by
    rw [bind_apply]
    cases Rule.run depth rule c <;> rfl
  exact same

/-- A rule does its first stretch and follows it. -/
theorem Rule.run_stretch (depth : Nat) (rule : Rule) :
    run (depth + 1) rule =
      (Job.rule rule).stretch >>= Next.follow (run depth) (Frame.resumeFresh depth) := by
  funext c
  cases rule with
  | expression =>
      rw [run, bind_apply]
      exact (follow_wrap depth .assignment c).symm
  | assignment =>
      rw [bind_apply, Job.stretch_assignment, run_assignment]
      cases c.current.lexeme with
      | identifier name =>
          rw [← bind_apply, bind_assoc]
          refine congrArg (fun next => (Cursor.peek >>= next) c) (funext fun next => ?_)
          split
          · simp only [bind_assoc, pure_bind]
            rfl
          · rw [pure_bind]
            exact (funext fun after => follow_wrap depth .additive after).symm
      | _ => exact (follow_wrap depth .additive c).symm
  | additive => rfl
  | multiplicative => rfl
  | unary =>
      rw [bind_apply, Job.stretch_unary, run_unary]
      split
      · rw [← bind_apply, bind_assoc]
        rfl
      · exact (follow_wrap depth .atom c).symm
  | atom =>
      rw [bind_apply, Job.stretch_atom, run_atom]
      cases c.current.lexeme with
      | integer value =>
          rw [← bind_apply, bind_assoc]
          rfl
      | identifier name =>
          rw [← bind_apply, bind_assoc]
          rfl
      | symbol s =>
          cases s with
          | openParen =>
              rw [← bind_apply, bind_assoc]
              rfl
          | _ => rfl
      | endOfText => rfl

/-- So does what comes behind a call. -/
theorem Frame.resume_stretch (depth rounds : Nat) (frame : Frame) (t : Tree) :
    frame.resume depth (rounds + 1) t =
      (Job.back frame t).stretch >>=
        Next.follow (Rule.run depth) (fun frame => frame.resume depth rounds) := by
  cases frame with
  | wrap join => rfl
  | operand level join =>
      funext c
      rw [bind_apply, Job.stretch, Job.round_eq, resume, Rule.chain_succ]
      split
      · rw [← bind_apply, bind_assoc]
        rfl
      · rfl
  | parentheses =>
      rw [resume, Job.stretch, bind_assoc]
      rfl

end Abacus
