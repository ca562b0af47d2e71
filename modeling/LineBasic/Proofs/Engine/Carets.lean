import LineBasic.Proofs.Engine.Account
import LineBasic.Proofs.Lint.Placed
import LineBasic.Random.ChaCha

namespace LineBasic

open Engine

/-!
# Carets in their texts

A report shows the text that it is about, with a caret below one of its columns.

* `Engine.IsExact` -- an engine whose reports are well placed, and whose direct statement is what
  its text says;
* `isExact_advance`, `isExact_carryOut`, `isExact_enter`, `isExact_obey` -- what is done with an
  engine leaves it exact, one lemma for each thing that can be done;
* `Moment.isExact` -- so does every moment;
* `Engine.poll_wellPlaced` -- the errors that are collected are well placed;
* `carets_in_texts` -- the main result, for errors, for findings, and for the parts of statements.
-/

variable {γ : Type}

namespace Engine

variable {s t : Engine γ} {d : Diagnostic}

/-- An engine whose reports are well placed, and whose direct statement is what its text says. -/
structure IsExact (s : Engine γ) : Prop where
  /-- The errors that have not been collected are well placed. -/
  errors : ∀ d ∈ s.errors, d.WellPlaced
  /-- The direct statement is that of its text. -/
  direct : ∀ d ∈ s.direct, d.Faithful

/-- Exactness is about the errors and the direct statement only. -/
theorem IsExact.of_same (hs : s.IsExact) (herrors : t.errors = s.errors)
    (hdirect : t.direct = s.direct) :
    t.IsExact :=
  ⟨herrors ▸ hs.errors, hdirect ▸ hs.direct⟩

/-- An engine that is like an exact one is exact. -/
theorem IsExact.of_isLike (hs : s.IsExact) (h : s.IsLike t) : t.IsExact :=
  hs.of_same h.errors h.direct

/-- An engine that is like one with faithful lines has faithful lines. -/
theorem Faithful.of_isLike (hlines : s.Faithful) (h : s.IsLike t) : t.Faithful :=
  fun l hl => hlines l (h.lines hl)

/-- An engine that has just been started has nothing to report. -/
theorem isExact_start (generator : γ) : (start generator).IsExact :=
  ⟨fun _ hd => (List.not_mem_nil hd).elim, fun _ hd => by cases hd⟩

/-! ### Reports -/

/-- A report that is well placed may be added. -/
theorem IsExact.report (hs : s.IsExact) (hd : d.WellPlaced) : (s.report d).IsExact :=
  ⟨List.forall_mem_append.2 ⟨hs.errors, List.forall_mem_singleton.2 hd⟩, hs.direct⟩

/-- The line of a file does not concern the columns of a report. -/
theorem placed_wellPlaced (s : Engine γ) (hd : d.WellPlaced) : (s.placed d).WellPlaced := by
  unfold placed
  split <;> exact hd

/-- A failure with a report that is well placed leaves the engine exact. -/
theorem IsExact.fail (hs : s.IsExact) (hd : d.WellPlaced) : (s.fail d).IsExact where
  errors := by
    rw [fail_errors]
    exact List.forall_mem_append.2 ⟨hs.errors, List.forall_mem_singleton.2 (s.placed_wellPlaced hd)⟩
  direct := by
    rw [fail_direct]
    exact hs.direct

/-- What happens to a run at the cursor is reported at the beginning of the line there. -/
theorem atCursor_wellPlaced (hlines : s.Faithful) (cause : Cause) :
    (s.atCursor cause).WellPlaced := by
  unfold atCursor
  dsimp only
  split
  next line hline =>
    exact Diagnostic.wellPlaced_of_lt rfl
      (hlines line (Listing.get?_eq_some_iff.1 hline).1).length_pos
  next => exact Diagnostic.wellPlaced_of_none rfl

/-! ### Runs -/

/-- Going on after a line reports at most that there is no line to go on with. -/
theorem isExact_finishLine (hs : s.IsExact) (hlines : s.Faithful) : s.finishLine.2.IsExact := by
  generalize hr : s.finishLine = r
  cases hr ▸ finishLine_cases s with
  | moved | stepped => exact hs.of_same rfl rfl
  | fellOff => exact hs.fail (atCursor_wellPlaced hlines _)

/-- Deleting a line reports at most that there is no such line, or that a run is suspended. -/
theorem isExact_delete (hs : s.IsExact) (n : Nat) : (s.delete n).IsExact := by
  unfold Engine.delete
  split
  · exact hs.report (Diagnostic.wellPlaced_of_none rfl)
  · split
    · exact hs.of_same rfl rfl
    · split
      · exact hs
      · exact hs.fail (Diagnostic.wellPlaced_of_none rfl)

/-- Tracing reports nothing. -/
theorem IsExact.traced (hs : s.IsExact) (text : String) : (s.traced text).IsExact := by
  rw [traced_eq]
  exact hs.of_same rfl rfl

/-- An entry that has been read is carried out, put by or stored with what its text says. -/
theorem isExact_accept {text : String} {entry : Entry} (hs : s.IsExact)
    (hentry : Entry.ofText (trimmed text) = .ok entry) :
    (s.accept (trimmed text) entry).IsExact := by
  cases entry with
  | store n statement => exact (hs.traced _).of_same rfl rfl
  | delete n => exact isExact_delete (hs.traced _) n
  | direct statement =>
    refine ⟨(hs.traced _).errors, ?_⟩
    rintro _ ⟨⟩
    exact ⟨trimmed_trimmed text, hentry⟩

/-- An interruption is reported for the line at the cursor, or for none. -/
theorem isExact_interrupt (hs : s.IsExact) (hlines : s.Faithful) : s.interrupt.IsExact := by
  unfold Engine.interrupt
  split
  · exact hs.fail (Diagnostic.wellPlaced_of_none rfl)
  · split
    · exact hs.fail (atCursor_wellPlaced hlines _)
    · exact hs

/-- A refusal shows no text. -/
theorem isExact_request {request : Request γ Unit} (hs : s.IsExact)
    (h : (∃ t, request s = .ok () t ∧ t.errors = s.errors ∧ t.direct = s.direct) ∨
      ∃ cause, request s = .error cause s) :
    (s.ask? request).2.IsExact ∧ (s.perform request).IsExact := by
  rcases h with ⟨t, ht, herrors, hdirect⟩ | ⟨cause, hcause⟩
  · rw [ask?_ok ht, perform_ok ht]
    exact ⟨hs.of_same herrors hdirect, hs.of_same herrors hdirect⟩
  · rw [ask?_error hcause, perform_error hcause]
    exact ⟨hs, hs.report (Diagnostic.wellPlaced_of_none rfl)⟩

/-- Giving up a suspended run leaves the engine exact. -/
theorem isExact_exitRun (hs : s.IsExact) :
    (s.ask? exitRun).2.IsExact ∧ (s.perform exitRun).IsExact := by
  refine isExact_request hs ?_
  rw [exitRun_eq]
  split
  · exact .inl ⟨_, rfl, stop_errors s, stop_direct s⟩
  · exact .inr ⟨_, rfl⟩

/-- Showing the open subroutines leaves the engine exact. -/
theorem isExact_showCalls (hs : s.IsExact) :
    (s.ask? showCalls).2.IsExact ∧ (s.perform showCalls).IsExact := by
  refine isExact_request hs ?_
  rw [showCalls_eq]
  split
  · exact .inl ⟨_, rfl, rfl, rfl⟩
  · exact .inr ⟨_, rfl⟩

/-- Setting a breakpoint leaves the engine exact. -/
theorem isExact_setBreakpoint (hs : s.IsExact) (n : Nat) :
    (s.ask? (setBreakpoint n)).2.IsExact ∧ (s.perform (setBreakpoint n)).IsExact := by
  refine isExact_request hs ?_
  rcases setBreakpoint_cases s n with ⟨b, -, h⟩ | h
  · exact .inl ⟨_, h, rfl, rfl⟩
  · exact .inr h

/-- Removing a breakpoint leaves the engine exact. -/
theorem isExact_clearBreakpoint (hs : s.IsExact) (n : Nat) :
    (s.ask? (clearBreakpoint n)).2.IsExact ∧ (s.perform (clearBreakpoint n)).IsExact := by
  refine isExact_request hs ?_
  rcases clearBreakpoint_cases s n with ⟨b, -, h⟩ | h
  · exact .inl ⟨_, h, rfl, rfl⟩
  · exact .inr h

/-- Findings are written, not collected. -/
theorem isExact_showLint (hs : s.IsExact) (strict : Bool) : (s.showLint strict).IsExact := by
  unfold showLint
  generalize s.listing.lint strict = ds
  induction ds generalizing s with
  | nil => exact hs
  | cons d ds ih => exact ih (s := s.emit (.notice d)) (hs.of_same rfl rfl)

/-- Beginning to load a file leaves the engine exact. -/
theorem isExact_beginLoad (hs : s.IsExact) : s.beginLoad.IsExact := by
  refine ⟨?_, ?_⟩
  · rw [Engine.beginLoad, stop_errors]
    exact hs.errors
  · rw [Engine.beginLoad, stop_direct]
    exact fun _ hd => by cases hd

variable [RandomSource γ]

/-- A line that fails does so at a part of its statement, and the report shows its text. -/
theorem isExact_executeLine {line : Line} (hs : s.IsExact) (hlines : s.Faithful)
    (hline : line.Faithful) :
    (s.executeLine line).2.IsExact := by
  generalize hr : s.executeLine line = r
  cases hr ▸ executeLine_cases s line with
  | failed fault t h =>
    refine (hs.of_isLike (execute_error_isLike h).of_begun).fail ?_
    exact Diagnostic.wellPlaced_of_lt rfl (hline.start_lt (execute_fault h))
  | ended t h | asked t h => exact hs.of_isLike (execute_ok_isLike h).of_begun
  | finished t h =>
    have hlike := (execute_ok_isLike h).of_begun
    exact isExact_finishLine (hs.of_isLike hlike) (hlines.of_isLike hlike)

/-- **Going on.**  Whatever comes of it, a run fails at a place in the text of a line. -/
theorem isExact_advance (hs : s.IsExact) (hlines : s.Faithful) : s.advance.2.IsExact := by
  generalize hr : s.advance = r
  cases hr ▸ advance_cases s with
  | idle | waiting => exact hs
  | lost => exact hs.fail (atCursor_wellPlaced hlines _)
  | stopped =>
    rw [pauseAt_eq]
    exact hs.of_same rfl rfl
  | executed line hopen =>
    have hline := hlines line (Listing.get?_eq_some_iff.1 hopen.2.2.1).1
    exact isExact_executeLine (s := { s with resume := false }) (hs.of_same rfl rfl) hlines hline

/-- A direct statement fails at a place in its text. -/
theorem isExact_carryOut {statement : DirectStatement} (hs : s.IsExact) (h : statement.Faithful) :
    (s.carryOut statement).IsExact := by
  unfold carryOut
  split
  next t hexecute => exact hs.of_isLike (execute_ok_isLike hexecute)
  next fault t hexecute =>
    refine (hs.of_isLike (execute_error_isLike hexecute)).fail ?_
    exact Diagnostic.wellPlaced_of_lt rfl (h.start_lt (execute_fault hexecute))

/-- What is due next leaves the engine exact, a direct statement that fails included. -/
theorem isExact_ticked (hs : s.IsExact) (hlines : s.Faithful) : s.ticked.IsExact := by
  unfold ticked
  generalize hr : s.tick = r
  cases hr ▸ tick_cases s with
  | errors => exact ⟨fun _ hd => (List.not_mem_nil hd).elim, hs.direct⟩
  | input | paused | stopped => exact hs
  | direct statement _ _ hdirect =>
    have hrest : { s with direct := none }.IsExact := ⟨hs.errors, fun _ hd => by cases hd⟩
    exact isExact_carryOut hrest (hs.direct statement hdirect)
  | program => exact isExact_advance hs hlines

/-! ### Entries -/

/-- A bad answer is reported without a column of its own. -/
theorem isExact_answer (hs : s.IsExact) (hlines : s.Faithful) (q : Inquiry) (text : String) :
    (s.answer q text).IsExact := by
  generalize hr : s.answer q text = r
  cases hr ▸ answer_cases s q text with
  | failed machine d _ _ hsource =>
    exact IsExact.fail (s := { s with machine, pending := none }) (hs.of_same rfl rfl)
      (Diagnostic.wellPlaced_of_none hsource)
  | more | finished => exact hs.of_same rfl rfl
  | resumed => exact isExact_finishLine (hs.of_same rfl rfl) hlines

/-- Entering a text leaves the engine exact, whatever the text is. -/
theorem isExact_enter (hs : s.IsExact) (hlines : s.Faithful) (text : String) :
    (s.enter text).2.IsExact := by
  have hcounted : s.counted.IsExact := hs.of_same rfl rfl
  cases hpending : s.pending with
  | some q =>
    rw [enter_of_pending hpending]
    exact isExact_answer hcounted hlines q text
  | none =>
    rw [enter_of_pending_none hpending]
    split
    · exact hcounted
    · split
      next d hmisread => exact hcounted.fail (Entry.ofText_error hmisread).2
      next entry hentry =>
        split
        · exact hcounted
        · exact isExact_accept hcounted hentry

/-! ### Requests -/

/-- A request to go on leaves the engine exact, whether it is accepted or refused. -/
theorem isExact_goingOn {a : Act γ} {request : Request γ Unit} (hs : s.IsExact)
    (ha : a.goingOn? = some request) :
    (s.ask? request).2.IsExact ∧ (s.perform request).IsExact := by
  refine isExact_request hs ?_
  rcases goingOn_cases ha with ⟨t, ht, -, stepping, rfl⟩ | h
  · exact .inl ⟨_, ht, rfl, rfl⟩
  · exact .inr h

/-- Obeying a command leaves the engine exact. -/
theorem isExact_obey (hs : s.IsExact) (c : Command) : (s.obey c).IsExact := by
  cases c with
  | option switch value => cases value <;> exact hs.of_same rfl rfl
  | setBreakpoint n => exact (isExact_setBreakpoint hs n).2
  | clearBreakpoint n => exact (isExact_clearBreakpoint hs n).2
  | resume => exact (isExact_goingOn (a := .resume) hs rfl).2
  | step => exact (isExact_goingOn (a := .step) hs rfl).2
  | backtrace => exact (isExact_showCalls hs).2
  | exit => exact (isExact_exitRun hs).2
  | lint strict => exact isExact_showLint hs strict
  | _ => exact hs.of_same rfl rfl

end Engine

/-! ### Every history -/

variable [RandomSource γ]

/-- **No moment places a report badly.**  An engine with faithful lines stays exact in every
    moment. -/
theorem Moment.isExact (m : Moment γ) (hlines : m.before.Faithful) (hs : m.before.IsExact) :
    m.after.IsExact := by
  cases m with
  | tick s => exact isExact_ticked hs hlines
  | act s a =>
    cases a with
    | enter text => exact isExact_enter hs hlines text
    | advance => exact isExact_advance hs hlines
    | interrupt => exact isExact_interrupt hs hlines
    | command c => exact isExact_obey hs c
    | resume => exact (isExact_goingOn (a := .resume) hs rfl).1
    | step => exact (isExact_goingOn (a := .step) hs rfl).1
    | exit => exact (isExact_exitRun hs).1
    | backtrace => exact (isExact_showCalls hs).1
    | setBreakpoint n => exact (isExact_setBreakpoint hs n).1
    | clearBreakpoint n => exact (isExact_clearBreakpoint hs n).1
    | beginLoad => exact isExact_beginLoad hs
    | endLoad => exact hs.of_same rfl rfl
    | reseed generator => exact hs.of_same rfl rfl

namespace Engine

variable {s : Engine γ}

/-- Whatever has been done with an engine, its reports are well placed. -/
theorem Reachable.isExact (h : s.Reachable) : s.IsExact := by
  have hboth : s.Faithful ∧ s.IsExact :=
    h.induction (I := fun s => s.Faithful ∧ s.IsExact)
      (fun generator => ⟨fun _ hl => (List.not_mem_nil hl).elim, isExact_start generator⟩)
      fun m hm => ⟨m.faithful hm.1, m.isExact hm.1 hm.2⟩
  exact hboth.2

/-- An act is not answered with an event. -/
theorem respond_ne_event (s : Engine γ) (a : Act γ) (e : Event) : (s.respond a).1 ≠ .event e := by
  have hask : ∀ request : Request γ Unit, (s.ask? request).1 ≠ .event e := by
    intro request
    unfold ask?
    split <;> exact Reply.noConfusion
  cases a with
  | resume | step | exit | backtrace | setBreakpoint | clearBreakpoint => exact hask _
  | _ => exact Reply.noConfusion

/-- The errors that a budget brings to light are well placed. -/
theorem poll_wellPlaced {budget : Nat} {reports : List Diagnostic} (hs : s.IsExact)
    (hlines : s.Faithful) (h : (poll budget s).1 = .errors reports) :
    ∀ d ∈ reports, d.WellPlaced := by
  -- Errors that are collected in a later tick have been noticed in the ticks before it.
  induction budget generalizing s with
  | zero => cases h
  | succ budget ih =>
    have hexact := isExact_ticked hs hlines
    have hfaithful := (Moment.tick s).faithful hlines
    change s.ticked.Faithful at hfaithful
    unfold ticked at hexact hfaithful
    unfold poll at h
    cases htick : s.tick with
    | inr t =>
      simp only [htick] at h hexact hfaithful
      exact ih hexact hfaithful h
    | inl result =>
      simp only [htick] at h
      cases htick ▸ tick_cases s with
      | errors =>
        cases h
        exact hs.errors
      | input | paused | stopped => cases h

end Engine

/-- **Main result.**  Whatever has been done with an engine, the errors that it reports and the
    findings about its program point into the texts that they show, and whatever is typed, the parts
    of its statement stand where their tokens do. -/
theorem carets_in_texts {s : Engine γ} (h : s.Reachable) :
    (∀ op reports, (s.operate op).1 = .event (.errors reports) → ∀ d ∈ reports, d.WellPlaced) ∧
    (∀ strict, ∀ d ∈ s.listing.lint strict, d.WellPlaced) ∧
    (∀ text entry, Entry.ofText text = .ok entry →
      ∀ statement ∈ entry.statement?, ∀ n ∈ statement.nodes, n.StandsIn (trimmed text)) := by
  refine ⟨fun op reports hreply => ?_, fun strict => Lint.lint_wellPlaced h.faithful strict,
    fun _ _ hentry =>
    Entry.nodes_stand hentry⟩
  cases op with
  | poll budget => exact poll_wellPlaced h.isExact h.faithful (Reply.event.inj hreply)
  | act a => exact absurd hreply (respond_ne_event s a _)

/-- A program is run that reads a variable without a value, and jumps to a line that is not
    stored. -/
def badJump : List (Operation ChaCha) :=
  [.act (.enter "10 IF A < 1 THEN GO SUB 7 "), .act (.enter "RUN")]

/-- The error and the finding point into the line, and the nodes of a direct statement into its
    text. -/
theorem carets_in_texts_badJump :
    let s := (start (ChaCha.ofSeed 1)).run badJump
    (∃ d, (s.operate (.poll 3)).1 = .event (.errors [d]) ∧
      d.source = some "10 IF A < 1 THEN GO SUB 7" ∧ d.column = ⟨6, 7⟩ ∧ d.WellPlaced) ∧
    (∃ d ∈ s.listing.lint false, d.source = some "10 IF A < 1 THEN GO SUB 7" ∧ d.column = ⟨24, 25⟩ ∧
      d.WellPlaced) ∧
    ∃ statement, Entry.ofText "GO TO 10*(2 0)" = .ok (.direct statement) ∧
      statement.nodes.length = 5 ∧ ∀ n ∈ statement.nodes, n.StandsIn "GO TO 10*(2 0)" := by
  intro s
  obtain ⟨herrors, hfindings, hnodes⟩ := carets_in_texts (s := s) ⟨_, _, rfl⟩
  refine ⟨?_, ?_, ?_⟩
  · let d : Diagnostic :=
      { code := .uninitialized, message := "Accessing uninitialized variable 'A'.", line := some 10,
        column := ⟨6, 7⟩
        source := some "10 IF A < 1 THEN GO SUB 7" }
    have hreply : (s.operate (.poll 3)).1 = .event (.errors [d]) := by decide +kernel
    exact ⟨d, hreply, rfl, rfl, herrors _ _ hreply d List.mem_cons_self⟩
  · let d : Diagnostic :=
      { code := .badBranchTarget, message := "GOSUB target not in program: '7'.", line := some 10
        column := ⟨24, 25⟩, source := some "10 IF A < 1 THEN GO SUB 7" }
    have hd : d ∈ s.listing.lint false :=
      Lint.report_mem (f := ⟨10, d⟩) (by decide +kernel) (by decide +kernel)
    exact ⟨d, hd, rfl, rfl, hfindings false d hd⟩
  · let product : Expr :=
      .binary ⟨8, 9⟩ .multiply (.int ⟨6, 8⟩ 10) (.group ⟨9, 10⟩ (.int ⟨10, 12⟩ 20))
    have hentry : Entry.ofText "GO TO 10*(2 0)" = .ok (.direct (.goto ⟨0, 4⟩ product)) := by
      decide +kernel
    have htrimmed : trimmed "GO TO 10*(2 0)" = "GO TO 10*(2 0)" := by decide +kernel
    exact ⟨_, hentry, by decide +kernel, htrimmed ▸ hnodes _ _ hentry _ rfl⟩

end LineBasic
