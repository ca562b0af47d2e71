import LineBasic.Proofs.Engine.Happened
import LineBasic.Proofs.Engine.LineStatement
import LineBasic.Proofs.Engine.Performed
import LineBasic.Proofs.Expr.Reads
import LineBasic.Proofs.Lint.Targets
import LineBasic.Random.ChaCha

namespace LineBasic

open Engine

/-!
# Runs after a lint of the jumps

Three parts of the interpreter judge the target of a jump: the linter, the look ahead of a single
step, and the jump itself.  They agree, and neither the state of a run nor what is done meanwhile
matters.

* `Listing.JumpsHit` -- all jumps of a program are to its lines, as numbers;
* `not_fails_undefined`, `not_refuses_target` -- such a program is executed and stepped through
  without a complaint about a target;
* `execute_misses`, `fails_undefined` -- a jump that misses fails whenever it is its turn;
* `lint_judges_jumps` -- the main result.
-/

variable {γ : Type} [RandomSource γ]

/-- Whether a statement, if it is a jump or has one inside its `IF`s, jumps to a number. -/
def Statement.jumpsToNumber (s : Statement) : Bool :=
  s.core.jump?.all fun (_, target) => target.literal?.isSome

/-- Whether all jumps of a program are to numbers. -/
def Listing.JumpsToNumbers (p : Listing) : Prop := ∀ l ∈ p.lines, l.statement.jumpsToNumber

/-- Whether a statement, if it is a jump or has one inside its `IF`s, jumps to the number of a
    line. -/
def Listing.HitBy (p : Listing) (s : Statement) : Prop :=
  ∀ word target, s.core.jump? = some (word, target) →
    ∃ span n, target.literal? = some (span, n) ∧ p.IsTarget n

/-- Whether all jumps of a program are to its lines. -/
def Listing.JumpsHit (p : Listing) : Prop := ∀ l ∈ p.lines, p.HitBy l.statement

/-- The jumps that the linter has nothing against are to lines of the program. -/
theorem Listing.jumpsHit_of_lint {p : Listing} {strict : Bool} (hnumbers : p.JumpsToNumbers)
    (hlint : ∀ d ∈ p.lint strict, d.code ≠ .badBranchTarget) : p.JumpsHit := by
  intro l hl word target hjump
  have hnumber := hnumbers l hl
  rw [Statement.jumpsToNumber, hjump] at hnumber
  obtain ⟨⟨span, n⟩, hliteral⟩ := Option.isSome_iff_exists.1 hnumber
  -- A jump that missed would have been reported.
  refine ⟨span, n, hliteral, Classical.byContradiction fun hmiss => ?_⟩
  obtain ⟨hd, hcode⟩ :=
    Listing.lint_misses.2 ⟨l, hl, word, span, n, ⟨target, hjump, hliteral, hmiss⟩, rfl⟩
  exact hlint _ hd hcode

namespace Engine

variable {s t : Engine γ} {line : Option Nat} {statement : Statement} {word : Keyword} {span : Span}
  {n : Int16}

/-! ### Jumps that hit -/

/-- A statement that jumps to a line does not fail for want of one. -/
theorem execute_hit {fault : Fault} (hhit : s.listing.HitBy statement)
    (h : execute line statement s = .error fault t) : fault.cause.code ≠ .undefinedLine := by
  intro hcode
  rcases (execute_error h).2 with hvalues | ⟨body, m, hcomes, hbalks⟩
  · simp [hcode, Code.concernsValues] at hvalues
  · obtain rfl := Statement.eq_core_of_comesTo? hcomes
    cases hbalks with
    | value hvalues => simp [hcode, Code.concernsValues] at hvalues
    | state hstate => simp [hcode, Code.concernsState] at hstate
    | ret _ _ hcause => simp [hcause, Cause.code] at hcode
    | @target word target k m' hjump hk hstored =>
      obtain ⟨span, n, hliteral, htarget⟩ := hhit word target hjump
      rw [Expr.eval_of_literal hliteral] at hk
      cases hk
      exact hstored htarget

omit [RandomSource γ] in
/-- A target that is the number of a line is found good. -/
theorem checkTarget_hit {target : Expr} (hliteral : target.literal? = some (span, n))
    (hn : s.listing.IsTarget n) : s.checkTarget target = .ok () := by
  unfold checkTarget
  simp only [hliteral]
  rw [if_pos (by simpa [Listing.IsTarget] using hn)]

/-- A jump is looked at for its target only. -/
theorem checkStep_jump {target : Expr} (h : statement.jump? = some (word, target)) :
    checkStep statement s = verdict (s.checkTarget target) s := by
  cases statement with
  | goto | gosub =>
    obtain ⟨rfl, rfl⟩ := Prod.mk.inj (Option.some.inj h)
    rfl
  | _ => cases h

/-- A statement that jumps to a line is not found to jump to none when a single step looks ahead. -/
theorem checkStep_hit (hhit : s.listing.HitBy statement) :
    checkStep statement s ≠ .error (.noBranchTarget n) t := by
  -- The induction is on the nesting of `IF`s, which the look ahead goes into where their conditions
  -- hold.
  induction statement with
  | cond span lhs relation rhs body ih =>
    rcases s.checkStep_cond_cases span lhs rhs relation body with hnothing | hinside
    · rw [hnothing]
      nofun
    · rw [hinside]
      exact ih hhit
  | goto span target =>
    obtain ⟨span', k, hliteral, hk⟩ := hhit .GOTO target rfl
    rw [checkStep_jump rfl, checkTarget_hit hliteral hk]
    nofun
  | gosub span target =>
    obtain ⟨span', k, hliteral, hk⟩ := hhit .GOSUB target rfl
    rw [checkStep_jump rfl, checkTarget_hit hliteral hk]
    nofun
  | ret span =>
    rw [checkStep_ret]
    split <;> nofun
  | clear | halt | input | assign | list | print | remark | run => nofun

/-! ### Jumps that miss -/

/-- A jump that misses fails on behalf of any line, and has changed nothing. -/
theorem execute_misses {k : Nat} (hmiss : s.listing.Misses statement word span n) :
    ∃ fault, fault.cause = .undefinedLine word n ∧
      execute (some k) statement s = .error fault s := by
  obtain ⟨target, hjump, hliteral, hn⟩ := hmiss
  have hresolve : resolve word target s = .error ⟨.undefinedLine word n, target.span⟩ s := by
    unfold resolve
    rw [bind_of_ok (evaluating_ok (Expr.eval_of_literal hliteral s.machine))]
    show (if _ then _ else _ : Execution γ Nat) s = _
    rw [if_neg (by simpa [Listing.IsTarget] using hn)]
    rfl
  refine ⟨⟨.undefinedLine word n, target.span⟩, rfl, ?_⟩
  cases statement with
  | goto span' =>
    obtain ⟨rfl, rfl⟩ := Prod.mk.inj (Option.some.inj hjump)
    rw [execute, executeGoto, bind_of_ok (guardPaused_line span' k), bind_of_error hresolve]
  | gosub span' =>
    obtain ⟨rfl, rfl⟩ := Prod.mk.inj (Option.some.inj hjump)
    rw [execute, executeGosub, bind_of_ok (guardPaused_line span' k), bind_of_error hresolve]
  | _ => cases hjump

/-- An engine that executes a line whose jump misses, when it is the turn of the jump, has one more
    error. -/
theorem executeLine_misses {l : Line} {body : Statement} {m : Machine γ}
    (hcomes : l.statement.comesTo? s.machine = some (body, m))
    (hmiss : s.listing.Misses l.statement.core word span n) :
    ∃ d, (s.executeLine l).2.errors = s.errors ++ [d] ∧ d.code = .undefinedLine := by
  obtain rfl := Statement.eq_core_of_comesTo? hcomes
  let b : Engine γ := { s.begun l with machine := m }
  obtain ⟨hlisting, hmachine, herrors⟩ : b.listing = s.listing ∧ (s.begun l).machine = s.machine ∧
      b.errors = s.errors := by
    simp only [b]
    rw [begun_eq]
    exact ⟨rfl, rfl, rfl⟩
  obtain ⟨fault, hcause, hfails⟩ := execute_misses (s := b) (k := l.number) (hlisting ▸ hmiss)
  have hexecute : execute (some l.number) l.statement (s.begun l) = .error fault b :=
    (execute_comesTo (hmachine ▸ hcomes)).trans hfails
  let d : Diagnostic := (fault.diagnostic.atLine (some l.number)).inSource l.source
  refine ⟨(b.timed l).placed d, ?_, ?_⟩
  · rw [executeLine_of_error hexecute, fail_errors, timed_eq, herrors]
  · rw [placed_code]
    show fault.cause.code = _
    rw [hcause]
    rfl

end Engine

/-! ### Moments -/

variable {m : Moment γ}

/-- A program whose jumps hit has no line that fails for want of the line it jumps to. -/
theorem not_fails_undefined (hhit : m.before.listing.JumpsHit) : ¬ m.Fails .undefinedLine := by
  -- An error in the course of a run comes from a line or from an answer, and answers do not jump.
  rintro ⟨hworks, d, herrors, hcode⟩
  rcases hworks with hexecuted | ⟨s, text, q, rfl, hq, -⟩
  · obtain ⟨line, hexecuted⟩ := Option.isSome_iff_exists.1 hexecuted
    rw [(Moment.isAdvance_spec (Moment.isAdvance_of_executed hexecuted)).1] at herrors
    rcases advance_errors herrors with ⟨-, -, h⟩ | ⟨l, fault, u, hl, hexecute, h⟩ | h
    · simp [h] at hcode
    · have hmem : l ∈ m.before.listing.lines :=
        (Listing.get?_eq_some_iff.1 (executed?_eq_some.1 hl).2.2.1).1
      have hlisting : ({ m.before with resume := false }.begun l).listing = m.before.listing := by
        rw [begun_eq]
      have hline := hhit l hmem
      rw [← hlisting] at hline
      exact execute_hit hline hexecute (h.symm.trans hcode)
    · simp [h] at hcode
  · have herrors : (s.counted.answer q text).errors = s.counted.errors ++ [d] := by
      have h : (s.enter text).2.errors = s.errors ++ [d] := herrors
      rw [enter_of_pending hq] at h
      exact h
    rcases answer_errors herrors with h | h <;> simp [h] at hcode

/-- A program whose jumps hit is stepped through without a complaint about them. -/
theorem not_refuses_target (hhit : m.before.listing.JumpsHit) (n : Int16) :
    ¬ m.Refuses (.noBranchTarget n) := by
  cases m with
  | tick s => exact id
  | act s a =>
    rintro ⟨request, t, ha, herror⟩
    rcases eq_of_goingOn? ha with rfl | rfl
    · rw [resumeRun_eq] at herror
      split at herror <;> cases herror
    · rcases s.stepRun_error_iff.1 herror with ⟨-, h, -⟩ | ⟨-, l, hl, hcheck⟩
      · cases h
      · exact checkStep_hit (hhit l (Listing.get?_eq_some_iff.1 hl).1) hcheck

/-- A line whose jump misses fails whenever it is executed and it is the turn of the jump. -/
theorem fails_undefined {l : Line} {word : Keyword} {span : Span} {n : Int16}
    (hexecuted : m.executed? = some l) (hcomes : l.statement.comesTo? m.before.machine ≠ none)
    (hmiss : m.before.listing.Misses l.statement.core word span n) : m.Fails .undefinedLine := by
  refine ⟨.inl (by simp [hexecuted]), ?_⟩
  obtain ⟨⟨body, machine⟩, hcomes⟩ := Option.ne_none_iff_exists'.1 hcomes
  obtain ⟨hafter, hsame⟩ := Moment.isAdvance_spec (Moment.isAdvance_of_executed hexecuted)
  have hopen : m.before.IsOpen l := executed?_eq_some.1 (hsame ▸ hexecuted)
  rw [hafter, advance_of_isOpen hopen]
  exact executeLine_misses (s := { m.before with resume := false }) hcomes hmiss

/-- **Main result.**  Let all jumps of a program be to numbers.  If the linter, strict or not, has
    nothing against their targets, no line of the program ever fails for want of a line to jump to
    and no single step is refused for that reason, whatever is done with whatever engine.  And if
    the linter says of any program that a target is bad, it speaks of the jump of some line, each
    execution of which fails. -/
theorem lint_judges_jumps {p : Listing} {strict : Bool} :
    (p.JumpsToNumbers → (∀ d ∈ p.lint strict, d.code ≠ .badBranchTarget) →
      ∀ (s : Engine γ) (ops : List (Operation γ)), ∀ m ∈ s.trail ops, m.before.listing = p →
        ¬ m.Fails .undefinedLine ∧ ∀ n, ¬ m.Refuses (.noBranchTarget n)) ∧
    ∀ d ∈ p.lint strict, d.code = .badBranchTarget →
      ∃ l ∈ p.lines, d.line = some l.number ∧ l.statement.core.jump? ≠ none ∧
        (∀ s : Engine γ, s.listing = p → ∃ fault, fault.cause.code = .undefinedLine ∧
          execute (some l.number) l.statement.core s = .error fault s) ∧
        ∀ (s : Engine γ) (ops : List (Operation γ)), ∀ m ∈ s.trail ops, m.before.listing = p →
          m.executed? = some l → l.statement.comesTo? m.before.machine ≠ none →
            m.Fails .undefinedLine := by
  constructor
  · intro hnumbers hlint s ops m _ hm
    have hhit : m.before.listing.JumpsHit := hm ▸ Listing.jumpsHit_of_lint hnumbers hlint
    exact ⟨not_fails_undefined hhit, not_refuses_target hhit⟩
  -- A report about a target comes from a jump that misses, and such a jump fails whatever the
  -- engine is.
  · intro d hd hcode
    obtain ⟨l, hl, word, span, n, hmiss, rfl⟩ := Listing.lint_misses.1 ⟨hd, hcode⟩
    refine ⟨l, hl, rfl, ?_, ?_, ?_⟩
    · obtain ⟨target, hjump, -⟩ := hmiss
      simp [hjump]
    · intro s hs
      obtain ⟨fault, hcause, hfails⟩ := execute_misses (s := s) (k := l.number) (hs ▸ hmiss)
      exact ⟨fault, by rw [hcause]; rfl, hfails⟩
    · intro s ops m _ hm hexecuted hcomes
      exact fails_undefined hexecuted hcomes (hm ▸ hmiss)

/-- A program with a loop and a subroutine. -/
def rounds : List (Operation ChaCha) :=
  [.act (.enter "10 INPUT N"), .act (.enter "20 IF N<1 THEN GOTO (60)"),
    .act (.enter "30 GOSUB 100"), .act (.enter "40 LET N=N-1"), .act (.enter "50 GOTO 20"),
    .act (.enter "60 END"), .act (.enter "100 PRINT N"), .act (.enter "110 RETURN")]

/-- A run of the program, in part by single steps. -/
def twoRounds : List (Operation ChaCha) :=
  [.act (.enter "RUN"), .poll 4, .act (.setBreakpoint 30), .act (.enter "2"), .poll 9, .act .step,
    .poll 9, .act .step, .poll 9, .act .resume, .poll 9, .act .resume, .poll 20]

/-- A program with a jump that misses. -/
def astray : List (Operation ChaCha) :=
  [.act (.enter "10 IF 1<2 THEN GOTO ((40))"), .act (.enter "20 END")]

/-- The loop runs and is stepped through without a complaint, and the jump that misses is found and
    fails. -/
theorem lint_judges_jumps_rounds :
    (let s := (start (ChaCha.ofSeed 1)).run rounds
      ∀ m ∈ s.trail twoRounds, ¬ m.Fails .undefinedLine ∧ ∀ n, ¬ m.Refuses (.noBranchTarget n)) ∧
    (let s := (start (ChaCha.ofSeed 1)).run astray
      ∃ d ∈ s.listing.lint false, d.code = .badBranchTarget ∧
        ∃ m ∈ s.trail [.act (.enter "RUN"), .poll 9], m.Fails .undefinedLine) := by
  constructor
  · intro s m hm
    have hnumbers : ∀ l ∈ s.listing.lines, l.statement.jumpsToNumber := by decide +kernel
    have hlint : ∀ d ∈ s.listing.lint false, d.code ≠ .badBranchTarget := by decide +kernel
    have hsame : ∀ m ∈ s.trail twoRounds, m.before.listing = s.listing := by decide +kernel
    exact lint_judges_jumps.1 hnumbers hlint s twoRounds m hm (hsame m hm)
  · intro s
    obtain ⟨d, hd, hcode, hline⟩ :
        ∃ d ∈ s.listing.lint false, d.code = .badBranchTarget ∧ d.line = some 10 := by
      decide +kernel
    refine ⟨d, hd, hcode, ?_⟩
    obtain ⟨l, hl, hnumber, -, -, hfails⟩ := (lint_judges_jumps (γ := ChaCha)).2 d hd hcode
    have hexecuted : ∀ l ∈ s.listing.lines, l.number = 10 →
        ∃ m ∈ s.trail [.act (.enter "RUN"), .poll 9], m.before.listing = s.listing ∧
          m.executed? = some l ∧ l.statement.comesTo? m.before.machine ≠ none := by
      decide +kernel
    obtain ⟨m, hm, hlisting, hexecuted, hcomes⟩ :=
      hexecuted l hl (Option.some.inj (hnumber.symm.trans hline))
    exact ⟨m, hm, hfails s _ m hm hlisting hexecuted hcomes⟩

end LineBasic
