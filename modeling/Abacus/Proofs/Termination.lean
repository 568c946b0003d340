/- # Every rule comes to an end

Whatever was done with a cursor before, and whatever of it failed, every rule called at it comes to
an end after finitely many calls, without any limit to their nesting; and if it returns a tree, the
token that is current then starts behind the one that was current at the call.

What holds of all these cursors is that their tokens do not overlap (`Cursor.Aligned`).  Operations
keep it, and so do the rules with any allowance (`Rule.run_keeps`).  One stretch of a job either
moves the current token on or calls a lower rule (`Job.stretch_comes`).  This is the measure by
which jobs finish (`Job.exists_finishes`), and the order in which their calls come
(`Job.Finishes.orderly`): from each call to each later one there is less left to be read, or as much
and the rule is lower.  Two calls of one rule, as in two rounds of a chain or where a rule is called
inside itself, never start at the same place.  The main result is
`Cursor.Reachable.every_rule_finishes`. -/
import Abacus.Proofs.Alignment
import Abacus.Proofs.Stretches

namespace Abacus
set_option autoImplicit false

/-! ## One stretch -/

namespace Job

/-- How high a job stands among the rules; what comes behind a call stands below all of them. -/
def rank : Job → Nat
  | rule r => r.phrase.rank
  | back _ _ => 0

/-- How far a job at least moves the start of the current token. -/
def least : Job → Nat
  | rule _ => 1
  | back _ _ => 0

theorem least_le (job : Job) : job.least ≤ 1 := by
  cases job <;> simp [least]

/-- Whether rank `n` at the cursor `there` comes behind rank `m` at `c`: with the current token
further on, or with the same one and lower. -/
def Onward (c : Cursor) (m : Nat) (there : Cursor) (n : Nat) : Prop :=
  c.current.start < there.current.start ∨ there.current.start = c.current.start ∧ n < m

theorem Onward.trans {c there behind : Cursor} {l m n : Nat} (first : Onward c l there m)
    (second : Onward there m behind n) : Onward c l behind n := by
  unfold Onward at *
  omega

/-- What one stretch can come to: it fails, it returns a tree with the current token moved on, or it
calls a rule, with the current token moved on or as a higher rule. -/
inductive Comes (text : Text) (job : Job) (c : Cursor) :
    EStateM.Result Failure Cursor Next → Prop
  | fails {d : Diagnostic} {after : Cursor} (aligned : after.Aligned text) :
      Comes text job c (.error (.diagnosed d) after)
  | done {t : Tree} {after : Cursor} (aligned : after.Aligned text)
      (later : c.current.start + job.least ≤ after.current.start) :
      Comes text job c (.ok (.done t) after)
  | calls {rule : Rule} {frame : Frame} {there : Cursor} (aligned : there.Aligned text)
      (onward : Onward c job.rank there rule.phrase.rank) :
      Comes text job c (.ok (.call rule frame) there)

variable {text : Text} {c : Cursor}

theorem comes_advance {job : Job} {next : Next} (aligned : c.Aligned text)
    (going : c.current.kind ≠ .endOfText)
    (moved : ∀ after : Cursor, after.Aligned text → c.current.start < after.current.start →
      job.Comes text c (.ok next after)) :
    job.Comes text c ((Cursor.advance >>= fun _ => pure next) c) := by
  rw [bind_apply]
  rcases aligned.advance going with ⟨after, result, kept, longer⟩ | ⟨d, after, result, kept⟩
  · rw [result]
    exact moved after kept longer
  · rw [result]
    exact .fails kept

theorem round_comes (aligned : c.Aligned text) (level : Level) (frame : Frame) (t t' : Tree) :
    (back frame t).Comes text c (round level t' c) := by
  rw [round_eq]
  split
  · rename_i operator
    exact comes_advance aligned (Level.going operator) fun after kept longer =>
      .calls kept (.inl longer)
  · exact .done aligned (Nat.le_refl _)

theorem assignment_comes (aligned : c.Aligned text) :
    (rule .assignment).Comes text c ((rule .assignment).stretch c) := by
  rw [stretch_assignment]
  split
  · rw [bind_apply]
    rcases aligned.peek with ⟨next, there, result, kept, current⟩ | ⟨d, there, result, kept⟩
    · rw [result]
      dsimp only
      split
      · simp only [bind_apply]
        rcases kept.expect .identifier (by simp) with
          ⟨second, result, kept, longer⟩ | ⟨d, second, result, kept⟩
        · rw [result]
          dsimp only
          rw [current] at longer
          rcases kept.expect (.symbol .assign) (by simp) with
            ⟨third, result, kept, longer'⟩ | ⟨d, third, result, kept⟩
          · rw [result]
            exact .calls kept (.inl (Nat.lt_trans longer longer'))
          · rw [result]
            exact .fails kept
        · rw [result]
          exact .fails kept
      · exact .calls kept (.inr ⟨by rw [current], by decide⟩)
    · rw [result]
      exact .fails kept
  · exact .calls aligned (.inr ⟨rfl, by decide⟩)

theorem atom_comes (aligned : c.Aligned text) :
    (rule .atom).Comes text c ((rule .atom).stretch c) := by
  have going (l : Token.Lexeme) (here : c.current.lexeme = l) (word : l.kind ≠ .endOfText) :
      c.current.kind ≠ .endOfText := by
    rw [Token.kind, here]
    exact word
  rw [stretch_atom]
  split
  · rename_i value here
    exact comes_advance aligned (going _ here (by simp [Token.Lexeme.kind]))
      fun after kept longer => .done kept longer
  · rename_i name here
    exact comes_advance aligned (going _ here (by simp [Token.Lexeme.kind]))
      fun after kept longer => .done kept longer
  · rename_i here
    exact comes_advance aligned (going _ here (by simp [Token.Lexeme.kind]))
      fun after kept longer => .calls kept (.inl longer)
  · exact .fails aligned

/-- Every stretch moves the current token on or calls a lower rule, if it does not fail. -/
theorem stretch_comes (aligned : c.Aligned text) (job : Job) :
    job.Comes text c (job.stretch c) := by
  cases job with
  | rule rule =>
      cases rule with
      | expression => exact .calls aligned (.inr ⟨rfl, by decide⟩)
      | assignment => exact assignment_comes aligned
      | additive => exact .calls aligned (.inr ⟨rfl, by decide⟩)
      | multiplicative => exact .calls aligned (.inr ⟨rfl, by decide⟩)
      | unary =>
          rw [stretch_unary]
          split
          · rename_i sign
            exact comes_advance aligned (@Level.going .additive _ sign) fun after kept longer =>
              .calls kept (.inl longer)
          · exact .calls aligned (.inr ⟨rfl, by decide⟩)
      | atom => exact atom_comes aligned
  | back frame t =>
      cases frame with
      | wrap join => exact .done aligned (Nat.le_refl _)
      | operand level join => exact round_comes aligned level _ t (join t)
      | parentheses =>
          rw [stretch, bind_apply]
          rcases aligned.expect (.symbol .closeParen) (by simp) with
            ⟨after, result, kept, longer⟩ | ⟨d, after, result, kept⟩
          · rw [result]
            exact .done kept (Nat.le_of_lt longer)
          · rw [result]
            exact .fails kept

/-! ## Rules with an allowance -/

/-- What a job has come to: the cursor is aligned, and a tree is returned only with the current
token moved on. -/
structure Keeps (text : Text) (job : Job) (c : Cursor)
    (r : EStateM.Result Failure Cursor Tree) : Prop where
  aligned : (remains r).Aligned text
  later : ∀ t after, r = .ok t after → c.current.start + job.least ≤ after.current.start

namespace Keeps

variable {job : Job} {after : Cursor}

theorem of_error {e : Failure} (aligned : after.Aligned text) :
    job.Keeps text c (.error e after) :=
  ⟨aligned, fun _ _ other => by cases other⟩

theorem of_ok {t : Tree} (aligned : after.Aligned text)
    (later : c.current.start + job.least ≤ after.current.start) :
    job.Keeps text c (.ok t after) :=
  ⟨aligned, fun _ _ same => (EStateM.Result.ok.inj same).2 ▸ later⟩

end Keeps

theorem keeps_follow {job : Job} {call : Rule → Cursor.Action Tree}
    {resume : Frame → Tree → Cursor.Action Tree} (comes : job.Comes text c (job.stretch c))
    (calls : ∀ (r : Rule) (there : Cursor), there.Aligned text →
      (rule r).Keeps text there (call r there))
    (resumes : ∀ (frame : Frame) (t : Tree) (behind : Cursor), behind.Aligned text →
      (back frame t).Keeps text behind (resume frame t behind)) :
    job.Keeps text c ((job.stretch >>= Next.follow call resume) c) := by
  rw [bind_apply]
  generalize job.stretch c = ending at comes
  cases comes with
  | fails aligned => exact .of_error aligned
  | done aligned later => exact .of_ok aligned later
  | @calls r frame there aligned onward =>
      unfold Onward at onward
      have inner := calls r there aligned
      dsimp only [Next.follow]
      rw [bind_apply]
      generalize call r there = result at inner
      cases result with
      | error e behind => exact .of_error inner.aligned
      | ok t behind =>
          have longer : there.current.start + 1 ≤ behind.current.start := inner.later t behind rfl
          have rest := resumes frame t behind inner.aligned
          refine ⟨rest.aligned, fun t' after same => ?_⟩
          have further : behind.current.start + 0 ≤ after.current.start := rest.later t' after same
          have small := job.least_le
          omega

end Job

theorem Frame.resume_keeps {text : Text} {depth : Nat}
    (calls : ∀ (r : Rule) (there : Cursor), there.Aligned text →
      (Job.rule r).Keeps text there (r.run depth there))
    (rounds : Nat) (frame : Frame) (t : Tree) {c : Cursor} (aligned : c.Aligned text) :
    (Job.back frame t).Keeps text c (frame.resume depth rounds t c) := by
  induction rounds generalizing frame t c with
  | zero =>
      cases frame with
      | wrap join => exact .of_ok aligned (Nat.le_refl _)
      | operand level join => exact .of_ok aligned (Nat.le_refl _)
      | parentheses =>
          rw [resume, bind_apply]
          rcases aligned.expect (.symbol .closeParen) (by simp) with
            ⟨after, result, kept, longer⟩ | ⟨d, after, result, kept⟩
          · rw [result]
            exact .of_ok kept (Nat.le_of_lt longer)
          · rw [result]
            exact .of_error kept
  | succ rounds ih =>
      rw [resume_stretch]
      exact Job.keeps_follow (Job.stretch_comes aligned _) calls fun frame t behind kept =>
        ih frame t kept

/-- Rules with any allowance leave an aligned cursor, and return a tree only with the current token
moved on. -/
theorem Rule.run_keeps {text : Text} (depth : Nat) (rule : Rule) (c : Cursor)
    (aligned : c.Aligned text) : (Job.rule rule).Keeps text c (run depth rule c) := by
  induction depth generalizing rule c with
  | zero =>
      rw [run]
      exact .of_error aligned
  | succ depth ih =>
      rw [run_stretch]
      exact Job.keeps_follow (Job.stretch_comes aligned _) ih fun frame t behind kept =>
        Frame.resume_keeps ih _ frame t kept

/-- The cursors that can be reached on a text, by operations and by calls of rules with any
allowance, going on whether they succeed or fail. -/
inductive Cursor.Reachable (text : Text) : Cursor → Prop
  | start {c : Cursor} (started : Cursor.start text = .ok c) : Reachable text c
  | operation {c : Cursor} (here : Reachable text c) (op : Operation) :
      Reachable text (remains (op.run c))
  | rule {c : Cursor} (here : Reachable text c) (depth : Nat) (rule : Rule) :
      Reachable text (remains (rule.run depth c))

theorem Cursor.Reachable.aligned {text : Text} {c : Cursor} (reachable : c.Reachable text) :
    c.Aligned text := by
  induction reachable with
  | start started => exact aligned_start started
  | operation here op ih => exact ih.step op
  | rule here depth rule ih => exact (rule.run_keeps depth _ ih).aligned

/-! ## Jobs that finish -/

namespace Job

/-- A job with an allowance for the nesting of the rules that it calls, and one for the rounds of
the chain that it goes on with. -/
def run (depth rounds : Nat) : Job → Cursor.Action Tree
  | rule r => r.run (depth + 1)
  | back frame t => frame.resume depth rounds t

variable {text : Text} {c : Cursor} {job : Job}

/-- A job does its first stretch and follows it.  Rounds enough for what is left of the text are
enough for what is left of it behind a call. -/
theorem run_stretch (aligned : c.Aligned text) {rounds : Nat} (depth : Nat)
    (enough : text.length < rounds + c.current.start) (job : Job) :
    ∃ resume, job.run depth rounds c = (job.stretch >>= Next.follow (Rule.run depth) resume) c ∧
      ∀ frame t (behind : Cursor), behind.Aligned text → c.current.start < behind.current.start →
        ∃ fewer, text.length < fewer + behind.current.start ∧
          resume frame t behind = (back frame t).run depth fewer behind := by
  cases job with
  | rule r =>
      refine ⟨Frame.resumeFresh depth, by rw [run, Rule.run_stretch], ?_⟩
      intro frame t behind kept longer
      exact ⟨behind.scanner.text.length + 1, by rw [kept.source]; omega, rfl⟩
  | back frame t =>
      cases rounds with
      | zero =>
          have inside := aligned.start_le
          omega
      | succ rounds =>
          refine ⟨fun frame => frame.resume depth rounds, by rw [run, Frame.resume_stretch], ?_⟩
          intro frame t behind kept longer
          exact ⟨rounds, by omega, rfl⟩

theorem onward_of_call (aligned : c.Aligned text) {r : Rule} {frame : Frame} {there : Cursor}
    (called : job.stretch c = .ok (.call r frame) there) :
    there.Aligned text ∧ Onward c job.rank there r.phrase.rank := by
  have comes := stretch_comes aligned job
  rw [called] at comes
  cases comes with
  | calls kept onward => exact ⟨kept, onward⟩

theorem run_keeps (aligned : c.Aligned text) (depth rounds : Nat) (job : Job) :
    job.Keeps text c (job.run depth rounds c) := by
  cases job with
  | rule r => exact r.run_keeps (depth + 1) c aligned
  | back frame t =>
      exact Frame.resume_keeps (fun r there => r.run_keeps depth there) rounds frame t aligned

/-- With as many allowances as it makes calls a job comes to what it comes to without any. -/
theorem Finishes.run {calls : List Call} {r : EStateM.Result Failure Cursor Tree}
    (finishes : job.Finishes c calls r) (aligned : c.Aligned text) (depth rounds : Nat)
    (deep : calls.length ≤ depth) (enough : text.length < rounds + c.current.start) :
    job.run depth rounds c = r := by
  induction finishes generalizing depth rounds with
  | @fails job c after e failed =>
      obtain ⟨resume, same, -⟩ := run_stretch aligned depth enough job
      rw [same, bind_apply, failed]
  | @returns job c after t done =>
      obtain ⟨resume, same, -⟩ := run_stretch aligned depth enough job
      rw [same, bind_apply, done]
      rfl
  | @breaks job c there after r frame calls e called inner ih =>
      obtain ⟨kept, -⟩ := onward_of_call aligned called
      obtain ⟨resume, same, -⟩ := run_stretch aligned depth enough job
      rw [same, bind_apply, called]
      rw [List.length_cons] at deep
      obtain ⟨depth, rfl⟩ := Nat.exists_eq_add_of_lt (Nat.lt_of_lt_of_le (Nat.zero_lt_succ _) deep)
      have failed : r.run (0 + depth + 1) there = .error e after :=
        ih kept (0 + depth) (text.length + 1) (by omega) (by omega)
      dsimp only [Next.follow]
      rw [bind_apply, failed]
  | @goesOn job c there behind r frame t calls later result called inner rest ihInner ihRest =>
      obtain ⟨kept, onward⟩ := onward_of_call aligned called
      unfold Onward at onward
      obtain ⟨resume, same, resumes⟩ := run_stretch aligned depth enough job
      rw [same, bind_apply, called]
      rw [List.length_cons, List.length_append] at deep
      obtain ⟨depth, rfl⟩ := Nat.exists_eq_add_of_lt (Nat.lt_of_lt_of_le (Nat.zero_lt_succ _) deep)
      have returned : r.run (0 + depth + 1) there = .ok t behind :=
        ihInner kept (0 + depth) (text.length + 1) (by omega) (by omega)
      have keeps := r.run_keeps (0 + depth + 1) there kept
      rw [returned] at keeps
      have longer : there.current.start + 1 ≤ behind.current.start := keeps.later t behind rfl
      obtain ⟨fewer, enough', resumed⟩ := resumes frame t behind keeps.aligned (by omega)
      dsimp only [Next.follow]
      rw [bind_apply, returned]
      dsimp only
      rw [resumed]
      exact ihRest keeps.aligned _ fewer (by omega) enough'

theorem Finishes.keeps {calls : List Call} {r : EStateM.Result Failure Cursor Tree}
    (finishes : job.Finishes c calls r) (aligned : c.Aligned text) : job.Keeps text c r := by
  have same : job.run calls.length (text.length + 1) c = r :=
    finishes.run aligned _ _ (Nat.le_refl _) (by omega)
  rw [← same]
  exact run_keeps aligned _ _ job

/-- By what is left of the text and the rank of the job, every job finishes. -/
theorem exists_finishes (bound : Nat) (job : Job) (c : Cursor) (aligned : c.Aligned text)
    (less : 7 * (text.length - c.current.start) + job.rank < bound) :
    ∃ calls r, job.Finishes c calls r := by
  induction bound generalizing job c with
  | zero => omega
  | succ bound ih =>
      have comes := stretch_comes aligned job
      generalize result : job.stretch c = ending at comes
      cases comes with
      | fails kept => exact ⟨_, _, .fails result⟩
      | done kept later => exact ⟨_, _, .returns result⟩
      | @calls r frame there kept onward =>
          unfold Onward at onward
          have small : r.phrase.rank ≤ 6 := by cases r <;> decide
          have inside := kept.start_le
          have lower : 7 * (text.length - there.current.start) + (rule r).rank < bound := by
            change 7 * (text.length - there.current.start) + r.phrase.rank < bound
            omega
          obtain ⟨calls, inner, finishes⟩ := ih (rule r) there kept lower
          cases inner with
          | error e after => exact ⟨_, _, .breaks result finishes⟩
          | ok t behind =>
              have keeps := finishes.keeps kept
              have longer : there.current.start + 1 ≤ behind.current.start :=
                keeps.later t behind rfl
              have inside' := keeps.aligned.start_le
              have lower' : 7 * (text.length - behind.current.start) + (back frame t).rank <
                  bound := by
                change 7 * (text.length - behind.current.start) + 0 < bound
                omega
              obtain ⟨later, r', rest⟩ := ih (back frame t) behind keeps.aligned lower'
              exact ⟨_, _, .goesOn result finishes rest⟩

/-- The calls of a job are made at aligned cursors.  Each comes behind the job and behind all calls
before it, and the token that is current when a tree is returned is further on than all of them. -/
structure Orderly (text : Text) (job : Job) (c : Cursor) (calls : List Call)
    (r : EStateM.Result Failure Cursor Tree) : Prop where
  aligned : ∀ call ∈ calls, call.cursor.Aligned text
  onward : ∀ call ∈ calls, Onward c job.rank call.cursor call.rule.phrase.rank
  ordered : calls.Pairwise fun first second =>
    Onward first.cursor first.rule.phrase.rank second.cursor second.rule.phrase.rank
  passed : ∀ t after, r = .ok t after →
    ∀ call ∈ calls, call.cursor.current.start < after.current.start
  diagnosed : ∀ e after, r = .error e after → ∃ d, e = .diagnosed d

theorem Finishes.orderly {calls : List Call} {r : EStateM.Result Failure Cursor Tree}
    (finishes : job.Finishes c calls r) (aligned : c.Aligned text) :
    job.Orderly text c calls r := by
  induction finishes with
  | @fails job c after e failed =>
      have comes := stretch_comes aligned job
      rw [failed] at comes
      refine ⟨by simp, by simp, .nil, by simp, fun e' after' same => ?_⟩
      obtain ⟨rfl, -⟩ := EStateM.Result.error.inj same
      cases comes with
      | fails _ => exact ⟨_, rfl⟩
  | returns done => exact ⟨by simp, by simp, .nil, by simp, fun _ _ other => by cases other⟩
  | @breaks job c there after r frame calls e called inner ih =>
      obtain ⟨kept, onward⟩ := onward_of_call aligned called
      have orderly := ih kept
      refine ⟨?_, ?_, List.pairwise_cons.mpr ⟨orderly.onward, orderly.ordered⟩,
        fun _ _ other => (by cases other), orderly.diagnosed⟩
      · exact List.forall_mem_cons.mpr ⟨kept, orderly.aligned⟩
      · exact List.forall_mem_cons.mpr
          ⟨onward, fun call member => onward.trans (orderly.onward call member)⟩
  | @goesOn job c there behind r frame t calls later result called inner rest ihInner ihRest =>
      obtain ⟨kept, onward⟩ := onward_of_call aligned called
      have keeps := inner.keeps kept
      have first := ihInner kept
      have second := ihRest keeps.aligned
      have longer : there.current.start + 1 ≤ behind.current.start := keeps.later t behind rfl
      -- what comes behind the call that returned has the current token further on
      have further : ∀ call ∈ later, behind.current.start < call.cursor.current.start := by
        intro call member
        rcases second.onward call member with before | ⟨-, lower⟩
        · exact before
        · exact absurd lower (Nat.not_lt_zero _)
      have across : ∀ call ∈ later, Onward there r.phrase.rank call.cursor call.rule.phrase.rank :=
        fun call member => .inl (by have := further call member; omega)
      refine ⟨?_, ?_, ?_, ?_, second.diagnosed⟩
      · exact List.forall_mem_cons.mpr
          ⟨kept, List.forall_mem_append.mpr ⟨first.aligned, second.aligned⟩⟩
      · refine List.forall_mem_cons.mpr ⟨onward, List.forall_mem_append.mpr ⟨?_, ?_⟩⟩
        · exact fun call member => onward.trans (first.onward call member)
        · exact fun call member => onward.trans (across call member)
      · refine List.pairwise_cons.mpr
          ⟨List.forall_mem_append.mpr ⟨first.onward, across⟩, List.pairwise_append.mpr
            ⟨first.ordered, second.ordered, fun call member call' member' => .inl ?_⟩⟩
        have before := first.passed t behind rfl call member
        have behind' := further call' member'
        omega
      · intro t' after same
        have end' : behind.current.start + 0 ≤ after.current.start :=
          (rest.keeps keeps.aligned).later t' after same
        refine List.forall_mem_cons.mpr ⟨by dsimp only; omega, List.forall_mem_append.mpr
          ⟨fun call member => ?_, second.passed t' after same⟩⟩
        have before := first.passed t behind rfl call member
        omega

end Job

/-! ## Calls with less and less to read -/

/-- What is left of the text from the current token on. -/
def Cursor.remaining (c : Cursor) : Nat := c.scanner.text.length - c.current.start

theorem Cursor.Aligned.remaining_add {text : Text} {c : Cursor} (aligned : c.Aligned text) :
    c.remaining + c.current.start = text.length := by
  rw [remaining, aligned.source, Nat.sub_add_cancel aligned.start_le]

namespace Call

/-- Whether a call has less to read than an earlier one, or as much for a lower rule. -/
def Below (call earlier : Call) : Prop :=
  call.cursor.remaining < earlier.cursor.remaining ∨
    call.cursor.remaining = earlier.cursor.remaining ∧
      call.rule.phrase.rank < earlier.rule.phrase.rank

theorem below_of_onward {text : Text} {first second : Call} (aligned : first.cursor.Aligned text)
    (aligned' : second.cursor.Aligned text)
    (onward : Job.Onward first.cursor first.rule.phrase.rank second.cursor
      second.rule.phrase.rank) : second.Below first := by
  have whole := aligned.remaining_add
  have whole' := aligned'.remaining_add
  rcases onward with before | ⟨same, lower⟩
  · exact .inl (by omega)
  · exact .inr ⟨by omega, lower⟩

/-- What is left to read and the rank of the rule in one number. -/
def weight (call : Call) : Nat := call.rule.phrase.need call.cursor.remaining

theorem weight_lt {call earlier : Call} (below : call.Below earlier) :
    call.weight < earlier.weight := by
  have ranks (r : Rule) : 1 ≤ r.phrase.rank ∧ r.phrase.rank ≤ 6 := by cases r <;> decide
  have rank := ranks call.rule
  have rank' := ranks earlier.rule
  unfold Below at below
  unfold weight Phrase.need
  omega

/-- Calls each of which is below those before it are no more than the first one weighs. -/
theorem length_le_weight {first : Call} {calls : List Call}
    (below : (first :: calls).Pairwise fun earlier call => call.Below earlier) :
    calls.length ≤ first.weight := by
  induction calls generalizing first with
  | nil => exact Nat.zero_le _
  | cons second calls ih =>
      obtain ⟨after, later⟩ := List.pairwise_cons.mp below
      have lighter := weight_lt (after second List.mem_cons_self)
      have few := ih later
      rw [List.length_cons]
      omega

end Call

/-- Every rule comes to an end, wherever it is called.  At a cursor that can be reached on a text,
by operations and by calls of rules, whichever of them fail:

* a rule finishes without any allowance, in one way only, after no more calls than six for each
  character of the text and six for its end;
* from its own call on, each call has less to read than those before it, or as much for a lower
  rule;
* it fails with a diagnostic if it fails, and with an ample allowance it comes to the same;
* if it returns a tree, then with any allowance, the current token starts behind the one that was
  current at the call. -/
theorem Cursor.Reachable.every_rule_finishes {text : Text} {c : Cursor}
    (reachable : c.Reachable text) (rule : Rule) :
    (∃ calls r, (Job.rule rule).Finishes c calls r ∧
      (∀ calls' r', (Job.rule rule).Finishes c calls' r' → calls' = calls ∧ r' = r) ∧
      calls.length ≤ 6 * (text.length + 1) ∧
      ((⟨rule, c⟩ :: calls).Pairwise fun earlier call => call.Below earlier) ∧
      (∀ e after, r = .error e after → ∃ d, e = .diagnosed d) ∧
      ∀ depth, Tree.ampleDepth text ≤ depth → rule.run depth c = r) ∧
    ∀ depth t after, rule.run depth c = .ok t after → c.current.start < after.current.start := by
  have aligned := reachable.aligned
  constructor
  · obtain ⟨calls, r, finishes⟩ := Job.exists_finishes _ (.rule rule) c aligned (Nat.lt_succ_self _)
    have orderly := finishes.orderly aligned
    have below : (⟨rule, c⟩ :: calls).Pairwise fun earlier call => call.Below earlier := by
      refine List.pairwise_cons.mpr ⟨fun call member => ?_, ?_⟩
      · exact Call.below_of_onward aligned (orderly.aligned call member)
          (orderly.onward call member)
      · exact orderly.ordered.imp_of_mem fun member member' => Call.below_of_onward
          (orderly.aligned _ member) (orderly.aligned _ member')
    have few : calls.length ≤ 6 * (text.length + 1) := by
      have whole := aligned.remaining_add
      have rank : rule.phrase.rank ≤ 6 := by cases rule <;> decide
      have light := Call.length_le_weight below
      simp only [Call.weight, Phrase.need] at light
      omega
    refine ⟨calls, r, finishes, fun _ _ => finishes.unique, few, below, orderly.diagnosed, ?_⟩
    intro depth ample
    rw [Tree.ampleDepth] at ample
    obtain ⟨depth, rfl⟩ := Nat.exists_eq_add_of_le' (Nat.le_trans (by omega : 1 ≤ _) ample)
    exact finishes.run aligned depth (text.length + 1) (by omega) (by omega)
  · intro depth t after returned
    have keeps := rule.run_keeps depth c aligned
    exact keeps.later t after returned

/-- Behind `x` the parser looks ahead and expects an integer in vain, and "=" is no atom either;
then the parentheses are read, up to the one that is left over. -/
theorem Cursor.every_rule_finishes_parentheses :
    ∃ c calls t after, Reachable "x = (2 * y) )".toList c ∧
      c.current = ⟨.symbol .openParen, 4, 5⟩ ∧
      (Job.rule .unary).Finishes c calls (.ok t after) ∧ calls.length ≤ 84 ∧
      after.current = ⟨.symbol .closeParen, 12, 13⟩ ∧ c.current.start < after.current.start := by
  have started : start "x = (2 * y) )".toList =
      .ok ⟨⟨"x = (2 * y) )".toList, 1⟩, ⟨.identifier ['x'], 0, 1⟩, none⟩ := by cbv
  have reachable := (((((Reachable.start started).operation .peek).operation
    (.expect .integer)).operation .advance).rule 20 .atom).operation .advance
  have here : remains (Operation.advance.run (remains (Rule.run 20 .atom
      (remains (Operation.advance.run (remains ((Operation.expect .integer).run
        (remains (Operation.peek.run
          ⟨⟨"x = (2 * y) )".toList, 1⟩, ⟨.identifier ['x'], 0, 1⟩, none⟩))))))))) =
      ⟨⟨"x = (2 * y) )".toList, 5⟩, ⟨.symbol .openParen, 4, 5⟩, none⟩ := by cbv
  have parsed : Rule.run 90 .unary
      ⟨⟨"x = (2 * y) )".toList, 5⟩, ⟨.symbol .openParen, 4, 5⟩, none⟩ =
      .ok (.binary (.symbol .star) (.literal (.int 2)) (.reference ['y']))
        ⟨⟨"x = (2 * y) )".toList, 13⟩, ⟨.symbol .closeParen, 12, 13⟩, none⟩ := by cbv
  rw [here] at reachable
  obtain ⟨⟨calls, r, finishes, -, few, -, -, runs⟩, later⟩ := reachable.every_rule_finishes .unary
  obtain rfl := (runs 90 (by decide)).symm.trans parsed
  exact ⟨_, calls, _, _, reachable, rfl, finishes, few, rfl, later 90 _ _ parsed⟩

end Abacus
