import LineBasic.Proofs.Engine.Moment
import LineBasic.Proofs.Engine.Supplied
import LineBasic.Random.ChaCha

namespace LineBasic

open Engine

/-!
# Runs after a clean lint

A run of a program that the strict linter has nothing against never wants a value, if the program
only jumps back and gives values openly.  What else is done meanwhile does not matter, as long as
the program is left alone.

* `secure_run`, `secure_carryOut` -- direct statements begin secure runs, and do not harm them;
* `secure_ticked`, `secure_respond` -- ticks and acts keep a run secure;
* `Moment.Undisturbed` -- what is asked of the moments of a run;
* `strict_lint_sound` -- the main result, for all programs, values and operations of that kind.
-/

variable {γ : Type} {s t : Engine γ}

namespace Engine

/-- What concerns neither the run nor the variables keeps an engine secure, and so does what ends
    the run. -/
theorem Secure.same (hs : s.Secure) (hidle : ¬ t.isIdle → ¬ s.isIdle)
    (hlisting : ¬ t.isIdle → t.listing = s.listing) (hvars : t.machine.vars = s.machine.vars)
    (hcursor : t.cursor = s.cursor) (hcalls : t.calls = s.calls) (hbranch : t.branch = s.branch)
    (hpending : t.pending = s.pending) : t.Secure := by
  intro hnot
  obtain ⟨hp, hprepared⟩ := hs (hidle hnot)
  have hlisting := hlisting hnot
  have hretains := retains_of_vars hvars
  refine ⟨hlisting ▸ hp, hprepared.toPlaced.of_retains hlisting hretains hcursor hcalls hbranch, ?_⟩
  intro q hq hline l hl hnumber x hx
  rw [hlisting] at hl
  rw [hcursor] at hnumber
  exact (hprepared.pending q (hpending ▸ hq) hline l hl hnumber x hx).imp_left (hretains x)

/-- Writing keeps an engine secure. -/
theorem Secure.emit (hs : s.Secure) (e : Emission) : (s.emit e).Secure :=
  hs.same id (fun _ => rfl) rfl rfl rfl rfl rfl

/-- A report keeps an engine secure. -/
theorem Secure.report (hs : s.Secure) (d : Diagnostic) : (s.report d).Secure :=
  hs.same id (fun _ => rfl) rfl rfl rfl rfl rfl

/-- A failure keeps an engine secure, because it ends a run or does not concern it. -/
theorem Secure.fail (hs : s.Secure) (d : Diagnostic) : (s.fail d).Secure :=
  secure_fail d fun hmode => by
    obtain ⟨hp, hprepared⟩ := hs (by simp [isIdle, hmode])
    exact ⟨hp, hprepared.toPlaced⟩

/-- The end of a run leaves an engine secure. -/
theorem Secure.stop (s : Engine γ) : s.stop.Secure := secure_of_isIdle (stop_isIdle s)

/-- The deletion of a line keeps an engine secure if no run is left, or no line was there. -/
theorem Secure.delete (hs : s.Secure) (n : Nat)
    (hlisting : ¬ (s.delete n).isIdle → (s.delete n).listing = s.listing) :
    (s.delete n).Secure := by
  revert hlisting
  unfold Engine.delete
  split
  · exact fun _ => hs.report _
  · split
    · exact fun hlisting => hs.same id hlisting rfl rfl rfl rfl rfl
    · split
      · exact fun _ => hs
      · exact fun _ => hs.fail _

/-- Tracing keeps an engine secure. -/
theorem Secure.traced (hs : s.Secure) (text : String) : (s.traced text).Secure := by
  rw [traced_eq]
  exact hs.same id (fun _ => rfl) rfl rfl rfl rfl rfl

/-- An entry keeps an engine secure if no run is left or the program stays as it is. -/
theorem Secure.accept (hs : s.Secure) (source : String) (entry : Entry)
    (hlisting : ¬ (s.accept source entry).isIdle → (s.accept source entry).listing = s.listing) :
    (s.accept source entry).Secure := by
  have htraced : ∀ text, (s.traced text).listing = s.listing := fun text => by rw [traced_eq]
  cases entry with
  | store n statement =>
    exact (hs.traced _).same id (fun hnot => (hlisting hnot).trans (htraced _).symm) rfl
      rfl rfl rfl rfl
  | delete n => exact (hs.traced _).delete n fun hnot => (hlisting hnot).trans (htraced _).symm
  | direct statement => exact (hs.traced _).same id (fun _ => rfl) rfl rfl rfl rfl rfl

variable [RandomSource γ]

/-! ### Direct statements -/

/-- `RUN` begins a run with nothing above its cursor. -/
theorem secure_run (hp : s.listing.InOrder) (hidle : s.isIdle) (hpending : s.pending = none)
    (source : String) (span : Span) (arguments : List Expr) :
    (s.carryOut ⟨source, .run span arguments⟩).Secure := by
  have hcomes := execute_comes (.run span arguments) none (fun _ h => h) s
  unfold carryOut
  cases hresult : execute none (.run span arguments) s with
  | error fault t =>
    rw [hresult] at hcomes
    obtain ⟨machine, -, rfl⟩ := hcomes
    exact Secure.fail (s := { s with machine }) (secure_of_isIdle hidle) _
  | ok u t =>
    rw [hresult] at hcomes
    -- All that a direct `RUN` can leave is a run at its first line, or none.
    cases hcomes with
    | wrote _ hlook transcript =>
      obtain ⟨machine, -, rfl⟩ := hlook
      exact secure_of_isIdle hidle
    | ended _ hended => exact secure_of_isIdle hended
    | rewound _ _ hline => cases hline
    | launched queue n _ _ hlook hn =>
      obtain ⟨machine, -, rfl⟩ := hlook
      have hfirst : s.listing.first? = some n := hn span arguments rfl
      let t : Engine γ := ({ s with machine, queue } : Engine γ).startRun n
      have hplaced : t.Placed := ⟨supplied_first? (s := t) hfirst, nofun, nofun⟩
      exact fun _ => ⟨hp, .of_placed hplaced hpending⟩

/-- A direct statement does not harm a run that is suspended. -/
theorem secure_carryOut (hs : s.Secure) (hmode : s.mode = .paused) (hpending : s.pending = none)
    (d : DirectStatement) : (s.carryOut d).Secure := by
  obtain ⟨hp, hprepared⟩ := hs (by simp [isIdle, hmode])
  have hcomes := execute_comes d.statement none (fun _ h => h) s
  unfold carryOut
  cases hresult : execute none d.statement s with
  | error fault t =>
    rw [hresult] at hcomes
    obtain ⟨machine, ⟨hvars, -⟩, rfl⟩ := hcomes
    exact Secure.fail (s := { s with machine }) (hs.same id (fun _ => rfl) hvars rfl rfl rfl rfl) _
  | ok u t =>
    rw [hresult] at hcomes
    rcases Carried.onward hcomes hprepared.toPlaced hmode with ⟨hidle, -⟩ | honward
    · exact secure_of_isIdle hidle
    · refine fun _ => ⟨honward.listing ▸ hp, honward.placed, fun q hq hline => ?_⟩
      -- Only the direct statement can have asked for values.
      rcases honward.pending q hq with hq | hnone
      · simp [hpending] at hq
      · simp [hnone] at hline

/-! ### Ticks -/

/-- The line at the cursor is executed. -/
theorem Secure.sequel_open {line : Line} (hs : s.Secure) (hopen : s.IsOpen line) :
    Sequel s ({ s with resume := false }.executeLine line).2 := by
  obtain ⟨hmode, -, hline, -⟩ := hopen
  obtain ⟨hp, hprepared⟩ := hs (by simp [isIdle, hmode])
  have hplaced : { s with resume := false }.Placed :=
    hprepared.toPlaced.of_retains rfl (fun _ hx => hx) rfl rfl rfl
  have hsequel := sequel_executeLine (s := { s with resume := false }) hp hplaced hmode hline
  exact ⟨hsequel.secure, hsequel.errors⟩

/-- Going on with a run keeps an engine secure. -/
theorem secure_advance (hs : s.Secure) : s.advance.2.Secure := by
  generalize hr : s.advance = r
  cases hr ▸ advance_cases s with
  | idle | waiting => exact hs
  | lost => exact hs.fail _
  | stopped line hmode =>
    rw [pauseAt_eq]
    exact hs.same (fun _ => by simp [isIdle, hmode]) (fun _ => rfl) rfl rfl rfl rfl rfl
  | executed line hopen => exact (hs.sequel_open hopen).secure

/-- What is due next keeps an engine secure, unless it is a direct statement under a run that goes
    on. -/
theorem secure_ticked (hs : s.Secure) (hdirect : s.mode ≠ .paused → s.direct = none) :
    s.ticked.Secure := by
  unfold ticked
  generalize hr : s.tick = r
  cases hr ▸ tick_cases s with
  | errors => exact hs.same id (fun _ => rfl) rfl rfl rfl rfl rfl
  | input | paused | stopped => exact hs
  | direct d _ hpending hd =>
    have hmode : s.mode = .paused := Decidable.byContradiction fun h => by simp [hdirect h] at hd
    have hs' : { s with direct := none }.Secure := hs.same id (fun _ => rfl) rfl rfl rfl rfl rfl
    exact secure_carryOut hs' hmode hpending d
  | program => exact secure_advance hs

/-! ### Acts -/

/-- A question is answered. -/
theorem Secure.sequel_enter (hs : s.Secure) {q : Inquiry} (hq : s.pending = some q)
    (text : String) :
    Sequel s (s.enter text).2 := by
  have hc : s.counted.Secure := hs.same id (fun _ => rfl) rfl rfl rfl rfl rfl
  have hsequel := sequel_answer hc hq text
  rw [enter_of_pending hq]
  exact ⟨hsequel.secure, hsequel.errors⟩

/-- Entering a text keeps an engine secure if no run is left or the program stays as it is. -/
theorem secure_enter (hs : s.Secure) (text : String)
    (hlisting : ¬ (s.enter text).2.isIdle → (s.enter text).2.listing = s.listing) :
    (s.enter text).2.Secure := by
  have hc : s.counted.Secure := hs.same id (fun _ => rfl) rfl rfl rfl rfl rfl
  have hlisting : ¬ (s.enter text).2.isIdle → (s.enter text).2.listing = s.counted.listing :=
    hlisting
  revert hlisting
  cases hpending : s.pending with
  | some q =>
    rw [enter_of_pending hpending]
    exact fun _ => (sequel_answer hc hpending text).secure
  | none =>
    rw [enter_of_pending_none hpending]
    split
    · exact fun _ => hc
    · split
      · exact fun _ => hc.fail _
      · split
        · exact fun _ => hc
        · exact hc.accept _ _

omit [RandomSource γ]

/-- A request that is refused or leaves an engine secure. -/
theorem secure_request {request : Request γ Unit} (hs : s.Secure)
    (h : (∃ t, request s = .ok () t ∧ t.Secure) ∨ ∃ cause, request s = .error cause s) :
    (s.ask? request).2.Secure ∧ (s.perform request).Secure := by
  rcases h with ⟨t, ht, hsecure⟩ | ⟨cause, hcause⟩
  · rw [ask?_ok ht, perform_ok ht]
    exact ⟨hsecure, hsecure⟩
  · rw [ask?_error hcause, perform_error hcause]
    exact ⟨hs, hs.report _⟩

/-- Giving up a suspended run leaves an engine secure. -/
theorem secure_exitRun (hs : s.Secure) :
    (s.ask? exitRun).2.Secure ∧ (s.perform exitRun).Secure := by
  refine secure_request hs ?_
  rw [exitRun_eq]
  split
  · exact .inl ⟨_, rfl, .stop s⟩
  · exact .inr ⟨_, rfl⟩

/-- Showing the open subroutines keeps an engine secure. -/
theorem secure_showCalls (hs : s.Secure) :
    (s.ask? showCalls).2.Secure ∧ (s.perform showCalls).Secure := by
  refine secure_request hs ?_
  rw [showCalls_eq]
  split
  · exact .inl ⟨_, rfl, hs.emit _⟩
  · exact .inr ⟨_, rfl⟩

/-- Breakpoints do not concern what a run can rely on. -/
theorem Secure.with_breakpoints (hs : s.Secure) (b : Breakpoints) :
    { s with breakpoints := b }.Secure :=
  hs.same id (fun _ => rfl) rfl rfl rfl rfl rfl

/-- Setting a breakpoint keeps an engine secure. -/
theorem secure_setBreakpoint (hs : s.Secure) (n : Nat) :
    (s.ask? (setBreakpoint n)).2.Secure ∧ (s.perform (setBreakpoint n)).Secure := by
  refine secure_request hs ?_
  rcases setBreakpoint_cases s n with ⟨b, -, h⟩ | h
  · exact .inl ⟨_, h, hs.with_breakpoints b⟩
  · exact .inr h

/-- Removing a breakpoint keeps an engine secure. -/
theorem secure_clearBreakpoint (hs : s.Secure) (n : Nat) :
    (s.ask? (clearBreakpoint n)).2.Secure ∧ (s.perform (clearBreakpoint n)).Secure := by
  refine secure_request hs ?_
  rcases clearBreakpoint_cases s n with ⟨b, -, h⟩ | h
  · exact .inl ⟨_, h, hs.with_breakpoints b⟩
  · exact .inr h

/-- Showing what the linter has found keeps an engine secure. -/
theorem secure_showLint (hs : s.Secure) (strict : Bool) : (s.showLint strict).Secure := by
  unfold showLint
  generalize s.listing.lint strict = ds
  induction ds generalizing s with
  | nil => exact hs
  | cons d ds ih => exact ih (hs.emit _)

/-- An interruption keeps an engine secure. -/
theorem secure_interrupt (hs : s.Secure) : s.interrupt.Secure := by
  unfold interrupt
  split
  · exact hs.fail _
  · split
    · exact hs.fail _
    · exact hs

/-- The end of a load keeps an engine secure. -/
theorem secure_endLoad (hs : s.Secure) : s.endLoad.2.Secure := by
  refine hs.same (fun hnot => ?_) (fun _ => rfl) rfl rfl rfl rfl rfl
  unfold endLoad at hnot
  dsimp only at hnot
  split at hnot
  · exact absurd rfl hnot
  · exact hnot

variable [RandomSource γ]

/-- A suspended run that is let go on is as well prepared as before. -/
theorem secure_goingOn {a : Act γ} {request : Request γ Unit} (hs : s.Secure)
    (ha : a.goingOn? = some request) : (s.ask? request).2.Secure ∧ (s.perform request).Secure := by
  refine secure_request hs ?_
  rcases goingOn_cases (s := s) ha with ⟨t, hok, hmode, stepping, rfl⟩ | h
  · exact .inl ⟨_, hok, hs.same (fun _ => by simp [isIdle, hmode]) (fun _ => rfl) rfl rfl
      rfl rfl rfl⟩
  · exact .inr h

/-- Obeying a command keeps an engine secure. -/
theorem secure_obey (hs : s.Secure) (c : Command) : (s.obey c).Secure := by
  cases c with
  | help | shortHelp | quit | load | save => exact hs
  | option switch value =>
    cases value with
    | some on => exact hs.same id (fun _ => rfl) rfl rfl rfl rfl rfl
    | none => exact hs.emit _
  | listBreakpoints | showVars => exact hs.emit _
  | setBreakpoint n => exact (secure_setBreakpoint hs n).2
  | clearBreakpoint n => exact (secure_clearBreakpoint hs n).2
  | clearBreakpoints => exact hs.with_breakpoints _
  | resume => exact (secure_goingOn (a := .resume) hs rfl).2
  | step => exact (secure_goingOn (a := .step) hs rfl).2
  | backtrace => exact (secure_showCalls hs).2
  | exit => exact (secure_exitRun hs).2
  | lint strict => exact secure_showLint hs strict

/-- Whatever is asked of an engine, the run stays secure as long as the program stays as it is. -/
theorem secure_respond (hs : s.Secure) (a : Act γ)
    (hlisting : ¬ (s.respond a).2.isIdle → (s.respond a).2.listing = s.listing) :
    (s.respond a).2.Secure := by
  cases a with
  | enter text => exact secure_enter hs text hlisting
  | advance => exact secure_advance hs
  | interrupt => exact secure_interrupt hs
  | command c => exact secure_obey hs c
  | resume => exact (secure_goingOn (a := .resume) hs rfl).1
  | step => exact (secure_goingOn (a := .step) hs rfl).1
  | exit => exact (secure_exitRun hs).1
  | backtrace => exact (secure_showCalls hs).1
  | setBreakpoint n => exact (secure_setBreakpoint hs n).1
  | clearBreakpoint n => exact (secure_clearBreakpoint hs n).1
  | beginLoad => exact .stop _
  | endLoad => exact secure_endLoad hs
  | reseed generator => exact hs.same id (fun _ => rfl) rfl rfl rfl rfl rfl

end Engine

/-! ### Moments -/

variable [RandomSource γ]

/-- Whether a moment leaves a run to itself: the program stays as it is while the run lasts, and a
    direct statement is carried out only while the run is suspended. -/
structure Moment.Undisturbed (m : Moment γ) : Prop where
  listing : ¬ m.after.isIdle → m.after.listing = m.before.listing
  direct : m.before.mode ≠ .paused → m.before.direct = none

instance (m : Moment γ) : Decidable m.Undisturbed :=
  decidable_of_iff ((¬ m.after.isIdle → m.after.listing = m.before.listing) ∧
      (m.before.mode ≠ .paused → m.before.direct = none))
    ⟨fun h => ⟨h.1, h.2⟩, fun h => ⟨h.listing, h.direct⟩⟩

/-- An undisturbed moment leaves a secure engine secure. -/
theorem secure_after {m : Moment γ} (hm : m.Undisturbed) (hs : m.before.Secure) :
    m.after.Secure := by
  cases m with
  | tick s => exact secure_ticked hs hm.direct
  | act s a => exact secure_respond hs a hm.listing

/-- A stored line of a secure engine does not fail for want of a value. -/
theorem not_fails_of_secure {m : Moment γ} (hs : m.before.Secure) : ¬ m.Fails .uninitialized := by
  rintro ⟨hworks, d, herrors, hcode⟩
  have hsequel : Sequel m.before m.after := by
    rcases hworks with hexecuted | ⟨s, text, q, rfl, hq, -⟩
    · obtain ⟨line, hline⟩ := Option.isSome_iff_exists.1 hexecuted
      obtain ⟨hafter, hsame⟩ := Moment.isAdvance_spec (Moment.isAdvance_of_executed hline)
      have hopen : m.before.IsOpen line := executed?_eq_some.1 (hsame ▸ hline)
      rw [hafter, advance_of_isOpen hopen]
      exact hs.sequel_open hopen
    · exact hs.sequel_enter hq text
  exact hsequel.errors d herrors hcode

/-- **Main result.**  Let the strict linter have nothing against the reads of a program that only
    jumps back and that gives no values under a condition.  A run of it, begun by `RUN` on an idle
    engine, has no line that fails for want of a value, whatever else is done as long as the program
    is not edited. -/
theorem strict_lint_sound {s : Engine γ} (hidle : s.isIdle) (hpending : s.pending = none)
    (hback : s.listing.JumpsBack) (hopen : s.listing.GivesOpenly)
    (hlint : ∀ d ∈ s.listing.lint true, d.code ≠ .maybeUninitialized) (source : String)
    (span : Span) (arguments : List Expr) (ops : List (Operation γ))
    (hops : ∀ m ∈ (s.carryOut ⟨source, .run span arguments⟩).trail ops, m.Undisturbed) :
    ∀ m ∈ (s.carryOut ⟨source, .run span arguments⟩).trail ops, ¬ m.Fails .uninitialized := by
  intro m hm
  have hp : s.listing.InOrder :=
    ⟨hback, hopen, fun l hl x hx => Listing.given_above hopen hlint hl hx⟩
  have hstart := secure_run hp hidle hpending source span arguments
  obtain ⟨past, future, htrail⟩ := List.append_of_mem hm
  have hpath := htrail ▸ path_trail (s.carryOut ⟨source, .run span arguments⟩) ops
  have hbefore : m.before.Secure := hpath.split.1.preserves hstart fun k hk =>
    secure_after (hops k (by rw [htrail]; simp [hk]))
  exact not_fails_of_secure hbefore

/-- A program that counts down, with a loop and a subroutine that calls itself. -/
def countdown : List (Operation ChaCha) :=
  [.act (.enter "10 INPUT N"), .act (.enter "20 IF N<1 THEN RETURN"), .act (.enter "30 PRINT N"),
    .act (.enter "40 LET N=N-1"), .act (.enter "50 IF N<2 THEN GOSUB 20"),
    .act (.enter "60 IF N>0 THEN GOTO (20)"), .act (.enter "70 END")]

/-- The run of the program, which is stopped on its way by a breakpoint. -/
def countingFrom3 : List (Operation ChaCha) :=
  [.poll 4, .act (.enter "3"), .poll 3, .act (.setBreakpoint 40), .poll 9, .act (.enter "LET X=1"),
    .poll 2, .act .resume, .poll 9, .act .resume, .poll 9]

/-- The countdown never wants a value, though it is stopped on its way and gets an answer. -/
theorem strict_lint_sound_countdown :
    let s := (start (ChaCha.ofSeed 1)).run countdown
    ∀ m ∈ (s.carryOut ⟨"RUN", .run ⟨0, 3⟩ []⟩).trail countingFrom3, ¬ m.Fails .uninitialized := by
  intro s
  have hstart : s.isIdle ∧ s.pending = none ∧
      (∀ l ∈ s.listing.lines, l.statement.jumpsUpTo l.number) ∧
      (∀ l ∈ s.listing.lines, l.statement.givesOpenly) ∧
      ∀ d ∈ s.listing.lint true, d.code ≠ .maybeUninitialized := by
    decide +kernel
  obtain ⟨hidle, hpending, hback, hopen, hlint⟩ := hstart
  exact strict_lint_sound hidle hpending hback hopen hlint _ _ _ _ (by decide +kernel)

end LineBasic
