import LineBasic.Proofs.Engine.Answer
import LineBasic.Proofs.Engine.Await
import LineBasic.Proofs.Engine.LineStatement
import LineBasic.Proofs.Engine.Request
import LineBasic.Random.ChaCha

namespace LineBasic.Engine

/-!
# Single steps

A single step of a suspended run executes the line at the cursor and no other, and then says where
the run has come to.

* `Landed` -- where a run comes to after a stepped line;
* `Stepped` -- what a single step comes to, by what the statement of the line does;
* `InStep`, `Completes` -- an `INPUT` in the middle of a step, and the operations that give it its
  values;
* `step_executes_one_line` -- the main result, for all statements, breakpoints and budgets;
* `step_to_deleted_line` -- a step can also come to a line that is no longer there.
-/

variable {γ : Type} {s t : Engine γ} {line : Line}

/-! ### Where a step leads -/

/-- Where a run comes to whose next line is to be a target, if there is one. -/
inductive Landed (p : Listing) (target : Option Nat) : Event → Engine γ → Prop where
  /-- The run is suspended at the target. -/
  | arrived (m : Nat) (t : Engine γ) (htarget : target = some m) (hstored : p.contains m)
      (hmode : t.mode = .paused) (hcursor : t.cursor = m) : Landed p target (.paused m) t
  /-- The target is no stored line. -/
  | lost (m : Nat) (t : Engine γ) (report : Diagnostic) (htarget : target = some m)
      (hstored : ¬ p.contains m) (hcode : report.code = .lineNotInProgram) (hidle : t.isIdle) :
      Landed p target (.errors [report]) t
  /-- There is no next line. -/
  | fellOff (t : Engine γ) (report : Diagnostic) (htarget : target = none)
      (hcode : report.code = .noEnd) (hidle : t.isIdle) : Landed p target (.errors [report]) t

/-- A run in the middle of a step, whose line waits for values. -/
structure InStep (s : Engine γ) (p : Listing) (n : Nat) : Prop where
  mode : s.mode = .running
  pending : ∃ q, s.pending = some q ∧ q.line = some n
  branch : s.branch = none
  stepping : s.stepping = true
  resume : s.resume = false
  cursor : s.cursor = n
  listing : s.listing = p
  errors : s.errors = []
  direct : s.direct = none

/-- A run whose stepped line has been carried out, and which is to go on after it. -/
structure Due (s : Engine γ) : Prop where
  mode : s.mode = .running
  pending : s.pending = none
  resume : s.resume = false
  stepping : s.stepping = true
  errors : s.errors = []
  direct : s.direct = none

/-- The engine that is about to carry out the statement of a line as a single step of a suspended
    run. -/
def underStep (s : Engine γ) (line : Line) : Engine γ :=
  { s with mode := .running, resume := false, stepping := true }.begun line

variable [RandomSource γ]

/-- What a single step comes to, by what the statement of the line does. -/
inductive Stepped (s : Engine γ) (line : Line) : Event → Engine γ → Prop where
  /-- The statement fails, and the run is over. -/
  | failed (fault : Fault) (u t : Engine γ) (report : Diagnostic)
      (hexecute : execute (some line.number) line.statement (s.underStep line) = .error fault u)
      (hcode : report.code = fault.cause.code) (hidle : t.isIdle) :
      Stepped s line (.errors [report]) t
  /-- The statement ends the run. -/
  | ended (u t : Engine γ)
      (hexecute : execute (some line.number) line.statement (s.underStep line) = .ok () u)
      (hmode : u.mode ≠ .running) (hidle : t.isIdle) : Stepped s line .stopped t
  /-- The line waits for values. -/
  | asked (q : Inquiry) (u t : Engine γ)
      (hexecute : execute (some line.number) line.statement (s.underStep line) = .ok () u)
      (hmode : u.mode = .running) (hq : u.pending = some q) (hin : t.InStep s.listing line.number) :
      Stepped s line (.input q.prompt) t
  /-- The run goes on, at the line that the statement jumps to or else at the next one; only a
      return can lead to a line that is not stored. -/
  | landed (e : Event) (u t : Engine γ)
      (hexecute : execute (some line.number) line.statement (s.underStep line) = .ok () u)
      (hmode : u.mode = .running) (hpending : u.pending = none)
      (hreturn : ∀ m, u.branch = some m → s.listing.contains m ∨ s.calls.pop = .ok (m, u.calls))
      (hlanded : Landed s.listing (u.branch.or (s.listing.nextAfter? line.number)) e t) :
      Stepped s line e t

/-! ### After the line -/

/-- A failure during a run is reported at once, and the run is over. -/
theorem leads_fail (hmode : s.mode = .running) (herrors : s.errors = []) (d : Diagnostic) :
    (s.fail d).Leads 1 [] fun e t => e = .errors [s.placed d] ∧ t.isIdle := by
  have hfail : (s.fail d).errors = [s.placed d] := by
    rw [fail_errors, herrors, List.nil_append]
  obtain ⟨hreports, hlines⟩ := reports_errors (s := s.fail d) (by rw [hfail]; simp)
  rw [hfail] at hreports
  exact ⟨_, _, _, hreports, Nat.le_refl 1, hlines, rfl, s.fail_isIdle d (by rw [hmode]; simp)⟩

/-- A run that is to stop at the line to which it has just come does so, if the line is there. -/
theorem leads_arrival (hturn : s.isProgramTurn) (hresume : s.resume = false)
    (honce : s.breakpoints.oneShot = some s.cursor) :
    s.Leads 2 [] (Landed s.listing (some s.cursor)) := by
  obtain ⟨herrors, hpending, hdirect, hmode⟩ := isProgramTurn_iff.1 hturn
  -- The flag is down and the mark for one stop is on the line, so it is not open.
  have hnone : s.executed? = none := by
    refine Option.eq_none_iff_forall_ne_some.2 fun line h => ?_
    obtain ⟨-, -, hline, hopen⟩ := executed?_eq_some.1 h
    rcases hopen with h | h
    · simp [hresume] at h
    · exact h (.inr (Listing.get?_number hline ▸ honce))
  have hadvance : s.advance.2.Leads 1 [] (Landed s.listing (some s.cursor)) := by
    generalize hr : s.advance = r
    cases hr ▸ advance_cases s with
    | idle h => exact absurd hmode h
    | waiting _ h => exact absurd hpending h
    | executed line hopen =>
      rw [executed?_eq_some.2 hopen] at hnone
      cases hnone
    | lost _ _ hline =>
      obtain ⟨ms, e, t, hreports, hlength, hlines, rfl, hidle⟩ :=
        leads_fail hmode herrors (s.atCursor (.lineNotInProgram s.cursor))
      refine ⟨ms, _, t, hreports, hlength, hlines, .lost s.cursor t _ rfl ?_ ?_ hidle⟩
      · simp [Listing.contains_iff_get?, hline]
      · rw [placed_code, atCursor_code]
        rfl
    | stopped line _ _ hline =>
      let y := { s with breakpoints := s.breakpoints.disarm }.pauseAt line (s.kindOfHit line.number)
      have hy : y = { s with
          breakpoints := s.breakpoints.disarm, transcript := y.transcript, mode := .paused,
          stepping := false } := pauseAt_eq _ _ _
      have hcursor : y.cursor = s.cursor := by rw [hy]
      obtain ⟨hpaused, hlines⟩ := reports_paused (s := y) (by rw [hy]; exact herrors)
        (by rw [hy]; exact hpending) (by rw [hy]; exact hdirect) (by rw [hy])
      rw [hcursor] at hpaused
      refine ⟨_, _, y, hpaused, Nat.le_refl 1, hlines, ?_⟩
      exact .arrived s.cursor y rfl (Listing.contains_iff_get?.2 ⟨line, hline⟩) (by rw [hy]) hcursor
  have hleads := hadvance.after_advance hturn
  rw [hnone] at hleads
  exact hleads

/-- **After a stepped line.**  The run comes to the next line, and executes nothing. -/
theorem Due.leads (h : s.Due) :
    s.finishLine.2.Leads 2 [] (Landed s.listing (s.branch.or (s.listing.nextAfter? s.cursor))) := by
  generalize hr : s.finishLine = r
  cases hr ▸ finishLine_cases s with
  | moved n _ hstepping => simp [h.stepping] at hstepping
  | stepped n hn _ =>
    -- The next line is armed before the run arrives there, so it is a breakpoint whatever others
    -- are set.
    rw [hn]
    refine leads_arrival ?_ h.resume rfl
    exact isProgramTurn_iff.2 ⟨h.errors, h.pending, h.direct, h.mode⟩
  | fellOff hn =>
    obtain ⟨ms, e, t, hreports, hlength, hlines, rfl, hidle⟩ :=
      leads_fail h.mode h.errors (s.atCursor .noEnd)
    refine ⟨ms, _, t, hreports, Nat.le_succ_of_le hlength, hlines, .fellOff t _ hn ?_ hidle⟩
    rw [placed_code, atCursor_code]
    rfl

/-! ### The line itself -/

/-- After the statement of a stepped line has been carried out, at most two ticks are left, and they
    execute nothing. -/
theorem leads_executeLine (hline : s.listing.get? s.cursor = some line) (herrors : s.errors = [])
    (hdirect : s.direct = none) (hpending : s.pending = none) :
    ({ s with mode := .running, resume := false, stepping := true }.executeLine line).2.Leads 2 []
      (Stepped s line) := by
  have hnumber : line.number = s.cursor := Listing.get?_number hline
  let x : Engine γ := { s with mode := .running, resume := false, stepping := true }
  have hworked := executeLine_worked x line rfl hpending
  show (x.executeLine line).2.Leads 2 [] (Stepped s line)
  generalize (x.executeLine line).2 = r at hworked ⊢
  cases hworked with
  | failed fault u machine transcript d hexecute hcode =>
    let v : Engine γ := { x with machine, transcript, branch := none }
    obtain ⟨ms, e, t, hreports, hlength, hlines, rfl, hidle⟩ := leads_fail (s := v) rfl herrors d
    exact ⟨ms, _, t, hreports, Nat.le_succ_of_le hlength, hlines,
      .failed fault u t _ hexecute ((placed_code v d).trans hcode) hidle⟩
  | ended u t hexecute hmode hidle ht_errors ht_direct ht_pending =>
    obtain ⟨hstopped, hlines⟩ := reports_stopped (ht_errors.trans herrors) ht_pending
      (ht_direct.trans hdirect) hidle
    exact ⟨_, _, r, hstopped, by simp, hlines, .ended u r hexecute hmode hidle⟩
  | asked u machine queue q transcript hexecute hmode hq hqline =>
    -- The step is not over: whoever gives the values finds the engine still stepping.
    let v : Engine γ := { x with machine, queue, transcript, branch := none, pending := some q }
    have hin : v.InStep s.listing line.number :=
      ⟨rfl, ⟨q, rfl, hqline⟩, rfl, rfl, rfl, hnumber.symm, rfl, herrors, hdirect⟩
    obtain ⟨hinput, hlines⟩ := reports_input (s := v) hin.errors rfl
    exact ⟨_, _, v, hinput, by simp, hlines, .asked q u v hexecute hmode hq hin⟩
  | finished u machine queue transcript hexecute hmode hnone _ hbranch =>
    let v : Engine γ := { x with machine, calls := u.calls, branch := u.branch, queue, transcript }
    have hdue : v.Due := ⟨rfl, hpending, rfl, rfl, herrors, hdirect⟩
    obtain ⟨ms, e, t, hreports, hlength, hlines, hlanded⟩ := hdue.leads
    have hlanded : Landed s.listing (u.branch.or (s.listing.nextAfter? line.number)) e t := by
      rw [hnumber]
      exact hlanded
    exact ⟨ms, e, t, hreports, hlength, hlines, .landed e u t hexecute hmode hnone hbranch hlanded⟩

/-- **A single step.**  The line at the cursor is executed and no other, and at most three ticks
    later the step is over. -/
theorem leads_step (hline : s.listing.get? s.cursor = some line) (herrors : s.errors = [])
    (hdirect : s.direct = none) (hpending : s.pending = none) :
    { s with mode := .running, resume := true, stepping := true }.Leads 3 [line]
      (Stepped s line) := by
  let s' : Engine γ := { s with mode := .running, resume := true, stepping := true }
  have hturn : s'.isProgramTurn := isProgramTurn_iff.2 ⟨herrors, hpending, hdirect, rfl⟩
  have hopen : s'.IsOpen line := ⟨rfl, hpending, hline, .inl rfl⟩
  have hadvance : s'.advance.2.Leads 2 [] (Stepped s line) := by
    rw [advance_of_isOpen hopen]
    exact leads_executeLine hline herrors hdirect hpending
  have hleads := hadvance.after_advance hturn
  rw [executed?_eq_some.2 hopen] at hleads
  exact hleads

/-! ### Values in the middle of a step -/

/-- Whether operations do no more than give a waiting line its values, with good answers and with
    polls in between, and are over as soon as it has them all. -/
def Completes (s : Engine γ) : List (Operation γ) → Prop
  | [] => s.pending = none
  | .poll budget :: ops => s.pending.isSome ∧ (poll budget s).2.Completes ops
  | .act (.enter text) :: ops =>
    (∃ q, s.pending = some q ∧ IsAnswered s.machine q text) ∧ (s.enter text).2.Completes ops
  | .act _ :: _ => False

/-- A wait goes on whatever is polled. -/
theorem poll_of_waiting {q : Inquiry} (herrors : s.errors = []) (hq : s.pending = some q)
    (budget : Nat) :
    (poll budget s).2 = s ∧ linesOf (ticks budget s) = [] := by
  obtain ⟨hreports, hlines⟩ := reports_input herrors hq
  cases budget with
  | zero => exact ⟨rfl, rfl⟩
  | succ budget =>
    have hpoll := hreports.poll (budget + 1)
    rw [if_pos (by simp)] at hpoll
    rw [hpoll.1, hpoll.2]
    exact ⟨rfl, hlines⟩

/-- A good answer leaves the line waiting, or lets the run go on after it. -/
theorem InStep.enter {p : Listing} {n : Nat} (h : s.InStep p n) {q : Inquiry}
    (hq : s.pending = some q) {text : String} (hgood : IsAnswered s.machine q text) :
    (s.enter text).2.InStep p n ∨ ∃ u : Engine γ, (s.enter text).2 = u.finishLine.2 ∧ u.Due ∧
      u.branch = none ∧ u.cursor = n ∧ u.listing = p := by
  obtain ⟨q', hq', hqline⟩ := h.pending
  obtain rfl : q' = q := by simpa [hq] using hq'.symm
  -- Entering counts a line of the file first, if there is one; nothing that matters here depends on
  -- it.
  let c : Engine γ := s.counted
  have henter : (s.enter text).2 = c.answer q' text := by rw [enter_of_pending hq]
  rw [henter]
  generalize hr : c.answer q' text = r
  cases hr ▸ answer_cases c q' text with
  | failed _ _ hbad => exact absurd hgood hbad
  | more machine transcript awaiting =>
    exact .inl ⟨h.mode, ⟨_, rfl, hqline⟩, h.branch, h.stepping, h.resume, h.cursor,
      h.listing, h.errors, h.direct⟩
  | resumed machine transcript =>
    exact .inr ⟨_, rfl, ⟨h.mode, rfl, h.resume, h.stepping, h.errors, h.direct⟩, h.branch, h.cursor,
      h.listing⟩
  | finished _ _ hdirect => exact absurd ⟨by rw [hqline]; rfl, h.mode⟩ hdirect

omit [RandomSource γ] in
/-- Going on after a stepped line asks for nothing. -/
theorem Due.finishLine_pending (h : s.Due) : s.finishLine.2.pending = none := by
  generalize hr : s.finishLine = r
  cases hr ▸ finishLine_cases s with
  | moved | stepped => exact h.pending
  | fellOff => exact s.fail_pending _

/-- Nothing is to be done for a line that has its values. -/
theorem Completes.eq_nil {ops : List (Operation γ)} (h : s.Completes ops)
    (hpending : s.pending = none) :
    ops = [] := by
  cases ops with
  | nil => rfl
  | cons op ops =>
    exfalso
    cases op with
    | poll budget =>
      have hsome : s.pending.isSome := h.1
      simp [hpending] at hsome
    | act a =>
      cases a with
      | enter text =>
        obtain ⟨⟨q, hq, -⟩, -⟩ := h
        simp [hpending] at hq
      | _ => exact h

/-- **Values in the middle of a step.**  Once the line has all its values the run comes to the next
    line, and no line is executed meanwhile. -/
theorem InStep.completes {p : Listing} {n : Nat} (h : s.InStep p n) {ops : List (Operation γ)}
    (hops : s.Completes ops) :
    linesOf (s.trail ops) = [] ∧ (s.run ops).Leads 2 [] (Landed p (p.nextAfter? n)) := by
  induction ops generalizing s with
  | nil =>
    obtain ⟨q, hq, -⟩ := h.pending
    have hnone : s.pending = none := hops
    simp [hnone] at hq
  | cons op ops ih =>
    cases op with
    | poll budget =>
      obtain ⟨q, hq, -⟩ := h.pending
      obtain ⟨hsame, hlines⟩ := poll_of_waiting h.errors hq budget
      have hrest : s.Completes ops := hsame ▸ hops.2
      obtain ⟨hnone, hleads⟩ := ih h hrest
      show linesOf (ticks budget s ++ (poll budget s).2.trail ops) = [] ∧
        ((poll budget s).2.run ops).Leads 2 [] _
      rw [linesOf_append, hlines, hsame, hnone]
      exact ⟨rfl, hleads⟩
    | act a =>
      cases a with
      | enter text =>
        obtain ⟨⟨q, hq, hgood⟩, hrest⟩ := hops
        show linesOf (.act s (.enter text) :: (s.enter text).2.trail ops) = [] ∧
          ((s.enter text).2.run ops).Leads 2 [] _
        rw [linesOf_cons, show linesOf [Moment.act s (.enter text)] = [] from rfl, List.nil_append]
        rcases h.enter hq hgood with hin | ⟨u, hu, hdue, hbranch, hcursor, hlisting⟩
        · exact ih hin hrest
        · obtain rfl : ops = [] := hrest.eq_nil (by rw [hu]; exact hdue.finishLine_pending)
          have hleads := hdue.leads
          rw [hbranch, hcursor, hlisting, Option.none_or, ← hu] at hleads
          exact ⟨rfl, hleads⟩
      | _ => exact absurd hops id

/-! ### The main result -/

/-- Where a run comes to that goes on after a line without a jump. -/
def CameToNext (p : Listing) (n : Nat) (e : Event) (t : Engine γ) : Prop :=
  match p.nextAfter? n with
  | some m => e = .paused m ∧ t.mode = .paused ∧ t.cursor = m
  | none => ∃ report, e = .errors [report] ∧ report.code = .noEnd ∧ t.isIdle

omit [RandomSource γ] in
/-- The next line is always there. -/
theorem Landed.cameToNext {p : Listing} {n : Nat} {e : Event} (h : Landed p (p.nextAfter? n) e t) :
    CameToNext p n e t := by
  unfold CameToNext
  cases h with
  | arrived m t htarget _ hmode hcursor =>
    rw [htarget]
    exact ⟨rfl, hmode, hcursor⟩
  | lost m _ _ htarget hstored => exact absurd (Listing.contains_nextAfter? htarget) hstored
  | fellOff t report htarget hcode hidle =>
    rw [htarget]
    exact ⟨report, rfl, hcode, hidle⟩

/-- **Main result.**  A single step that is accepted in a suspended run executes the line at the
    cursor and no other before the next event, whatever the budgets are, and within three ticks
    there is one.  If it asks for values, then after good answers the next event says that the run
    has come to the next line, and again no line is executed before it. -/
theorem step_executes_one_line {s s' : Engine γ} {line : Line}
    (hline : s.listing.get? s.cursor = some line) (herrors : s.errors = [])
    (hdirect : s.direct = none) (hpending : s.pending = none) (hstep : stepRun s = .ok () s') :
    s'.Brings 3 fun r =>
      r.executed = [line] ∧ Stepped s line r.event r.engine ∧
        ∀ q, r.event = .input q → ∀ ops, r.engine.Completes ops →
          linesOf (r.engine.trail ops) = [] ∧
            (r.engine.run ops).Brings 2 fun r' =>
              r'.executed = [] ∧ CameToNext s.listing line.number r'.event r'.engine := by
  have hs' : s' = { s with mode := .running, resume := true, stepping := true } := by
    rcases stepRun_cases s with ⟨-, h⟩ | ⟨cause, h⟩
    · rw [h] at hstep
      exact (EStateM.Result.ok.inj hstep).2.symm
    · rw [h] at hstep
      cases hstep
  obtain ⟨ms, e, t, hreports, hlength, hlines, hstepped⟩ :=
    leads_step hline herrors hdirect hpending
  rw [hs']
  refine hreports.brings hlength ⟨hlines, hstepped, ?_⟩
  rintro q rfl ops hops
  -- A step that has come to the next line asks for nothing, so this one stopped at its `INPUT`.
  have hin : t.InStep s.listing line.number := by
    cases hstepped with
    | asked _ _ _ _ _ _ hin => exact hin
    | landed _ _ _ _ _ _ _ hlanded => cases hlanded
  obtain ⟨hnone, ms', e', t', hreports', hlength', hlines', hlanded⟩ := hin.completes hops
  exact ⟨hnone, hreports'.brings hlength' ⟨hlines', hlanded.cameToNext⟩⟩

/-- A run that is suspended at an `INPUT`. -/
def suspendedAtInput : List (Operation ChaCha) :=
  [.act (.enter "10 INPUT A"), .act (.enter "20 END"), .act (.setBreakpoint 10),
    .act (.enter "RUN"), .poll 3]

/-- The `INPUT` alone is executed by the step, and after the answer the run is suspended at line
    20. -/
theorem step_executes_one_line_at_input :
    let s := (start (ChaCha.ofSeed 1)).run suspendedAtInput
    let s' := (s.respond .step).2
    stepRun s = .ok () s' ∧ (∃ line, (s'.await [3]).executed = [line] ∧ line.number = 10) ∧
      (((s'.await [3]).engine.run [.act (.enter "7")]).await [2]).event = .paused 20 := by
  intro s s'
  let line : Line := ⟨10, "10 INPUT A", .input ⟨3, 8⟩ [⟨⟨9, 10⟩, ⟨0⟩⟩]⟩
  have hstep : stepRun s = .ok () s' := ask?_done (by decide +kernel)
  have hline : s.listing.get? s.cursor = some line := by decide +kernel
  have hbrings :=
    step_executes_one_line hline (by decide +kernel) (by decide +kernel) (by decide +kernel) hstep
  have hevent : (s'.await [3]).event = .input (Inquiry.prompt ⟨[⟨0⟩], some 10⟩) := by decide +kernel
  obtain ⟨hexecuted, -, hvalues⟩ := (hbrings [3]).2 (by rw [hevent]; simp)
  have hcompletes : (s'.await [3]).engine.Completes [.act (.enter "7")] := by
    refine ⟨⟨⟨[⟨0⟩], some 10⟩, by decide +kernel, ?_⟩, ?_⟩
    · show Option.isSome _ = true
      decide +kernel
    · show Engine.pending _ = none
      decide +kernel
  obtain ⟨-, hlast⟩ := hvalues _ hevent _ hcompletes
  obtain ⟨-, hcame⟩ := (hlast [2]).2 (by decide +kernel)
  refine ⟨hstep, ⟨line, hexecuted, rfl⟩, ?_⟩
  rw [CameToNext, show s.listing.nextAfter? line.number = some 20 by decide +kernel] at hcame
  exact hcame.1

/-- A run that is suspended at a return whose line has been deleted meanwhile. -/
def suspendedAtReturn : List (Operation ChaCha) :=
  [.act (.enter "10 GOSUB 100"), .act (.enter "20 END"), .act (.enter "100 RETURN"),
    .act (.setBreakpoint 100), .act (.enter "RUN"), .poll 2, .act (.enter "20"), .poll 2]

/-- A single step does not always stop at the line to which the run goes: here the statement is
    carried out and goes to line 20, and then the run is over, because that line is no longer
    there. -/
theorem step_to_deleted_line :
    let s := (start (ChaCha.ofSeed 1)).run suspendedAtReturn
    let s' := (s.respond .step).2
    s.mode = .paused ∧ s.listing.contains s.cursor ∧ s.errors = [] ∧ s.direct = none ∧
      s.pending = none ∧
      (s.respond .step).1 = .done ∧ s'.advance.1 = .onward ∧ s'.advance.2.cursor = 20 ∧
      (s'.await [3]).event = .errors [(Cause.lineNotInProgram 20).diagnostic.atLine (some 20)] := by
  decide +kernel

end LineBasic.Engine
