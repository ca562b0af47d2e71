import LineBasic.Proofs.Engine.Advance
import LineBasic.Proofs.Engine.Answer
import LineBasic.Proofs.Engine.Performed

namespace LineBasic

open Engine

/-!
# The values of `RUN`

What a run does to the values that it was given is kept as an account: `INPUT` draws on it, and it
is closed, with one warning if anything is left, when the run is over or begins again.

* `Statement.serves`, `Statement.restarts` -- what a statement takes from the values, and whether it
  begins the program again;
* `Account`, `Engine.account` -- the values that are left and the warnings that there were;
* `ask_eq` -- an `INPUT` takes the first of the values, and asks for as many as are wanting;
* `IsLike`, `execute_ok_isLike`, `execute_error_isLike` -- what statements leave alone;
* `HasAccount` -- an engine whose account is open during the run and closed after it;
* `hasAccount_advance` -- going on with a run is accounted for.
-/

variable {γ : Type}

/-! ### What statements take -/

namespace Statement

variable [RandomSource γ]

/-- The values that a statement takes from the front of a queue if it comes to an `INPUT`, each with
    the variable that it is for. -/
def serves (s : Statement) (m : Machine γ) (queue : List Int16) : List (Letter × Int16) :=
  match s.comesTo? m with
  | some (.input _ targets, _) => (targets.map Target.name).zip queue
  | _ => []

/-- Whether a statement comes to a `RUN`. -/
def restarts (s : Statement) (m : Machine γ) : Bool :=
  match s.comesTo? m with
  | some (.run .., _) => true
  | _ => false

end Statement

/-- A machine in which some variables have been given values, one after the other. -/
def Machine.store (m : Machine γ) (served : List (Letter × Int16)) : Machine γ :=
  { m with vars := served.foldl (fun vars x => vars.set x.1 x.2) m.vars }

/-! ### Accounts -/

/-- The values of a run that are left, and how often there has been a warning that there were too
    many. -/
structure Account where
  left : List Int16
  warned : Nat

namespace Account

variable (a : Account)

/-- An account on which some values have been drawn. -/
def draw (n : Nat) : Account := { a with left := a.left.drop n }

/-- An account with some more warnings. -/
def warn (n : Nat) : Account := { a with warned := a.warned + n }

/-- A closed account: what was left has been dropped, with a warning. -/
def close : Account := ⟨[], a.warned + if a.left = [] then 0 else 1⟩

@[simp] theorem draw_zero : a.draw 0 = a := rfl

/-- There is nothing to warn about a second time. -/
@[simp] theorem close_close : a.close.close = a.close := by simp [close]

section After

variable [RandomSource γ] {a : Account} {s body : Statement} {m m' : Machine γ}

/-- The account after a statement of a program line, as long as the run goes on. -/
def after (a : Account) (s : Statement) (m : Machine γ) : Account :=
  if s.restarts m then a.close else a.draw (s.serves m a.left).length

/-- A statement whose conditions do not hold leaves the account alone. -/
theorem after_of_skipped (h : s.comesTo? m = none) : a.after s m = a := by
  simp [after, Statement.restarts, Statement.serves, h]

/-- The account after a statement that is no `IF`. -/
def through (a : Account) : Statement → Account
  | .input _ targets => a.draw targets.length
  | .run .. => a.close
  | _ => a

/-- A statement does to the account what the statement inside its `IF`s does. -/
theorem after_of_comesTo (h : s.comesTo? m = some (body, m')) : a.after s m = a.through body := by
  unfold after Statement.restarts Statement.serves
  rw [h]
  cases body with
  | input _ targets =>
    -- No more values are drawn than there are.
    have hdrop : a.left.drop (min targets.length a.left.length) = a.left.drop targets.length :=
      List.drop_eq_drop_iff.2 (by simp)
    simp [through, draw, hdrop]
  | _ => rfl

end After

end Account

namespace Engine

variable {s t : Engine γ} {line : Option Nat}

/-- How often there has been a warning that there were too many values or answers. -/
def surpluses (s : Engine γ) : Nat := s.notices Cause.excessInput.diagnostic

/-- The account of a run. -/
def account (s : Engine γ) : Account := ⟨s.queue, s.surpluses⟩

/-- An engine with the same values and the same warnings has the same account. -/
theorem account_same (hqueue : t.queue = s.queue) (hsurpluses : t.surpluses = s.surpluses) :
    t.account = s.account := by
  rw [account, hqueue, hsurpluses, account]

/-- Whatever is written, unless it is the warning, leaves the account alone. -/
theorem account_emit {e : Emission} (h : e ≠ .notice Cause.excessInput.diagnostic) :
    (s.emit e).account = s.account :=
  account_same rfl (s.notices_emit h)

/-- Output leaves the account alone. -/
theorem account_output (s : Engine γ) (text : String) :
    (s.emit (.output text)).account = s.account :=
  account_emit (by simp)

/-- A warning that there are too many answers. -/
theorem account_spare (s : Engine γ) :
    (s.emit (.notice Cause.excessInput.diagnostic)).account = s.account.warn 1 := by
  have hsurpluses : (s.emit (.notice Cause.excessInput.diagnostic)).surpluses = s.surpluses + 1 :=
    s.notices_emit_notice _
  rw [account, hsurpluses]
  rfl

/-- Coming to carry out a line leaves the account alone. -/
theorem account_begun (s : Engine γ) (line : Line) : (s.begun line).account = s.account := by
  have htraced : (s.traced line.source).queue = s.queue := by rw [traced_eq]
  exact account_same htraced (s.notices_traced _ _)

/-- Writing the time of a line leaves the account alone. -/
theorem account_timed (s : Engine γ) (line : Line) : (s.timed line).account = s.account := by
  have htimed : (s.timed line).queue = s.queue := by rw [timed_eq]
  exact account_same htimed (s.notices_timed _ _)

/-- To forget the values that are left closes an account. -/
theorem account_dropped (hqueue : t.queue = []) (htranscript : t.transcript = s.dropNotice) :
    t.account = s.account.close := by
  have hsurpluses : t.surpluses = s.surpluses + if s.queue = [] then 0 else 1 := by
    rw [surpluses, notices, htranscript, dropNotice]
    split
    · rfl
    · exact s.notices_emit_notice _
  rw [account, hqueue, hsurpluses]
  rfl

/-- Whatever stops a run closes its account. -/
theorem account_stop (s : Engine γ) : s.stop.account = s.account.close :=
  account_dropped (stop_queue s) (stop_transcript s)

/-- A run that begins again closes its account. -/
theorem account_rewind (s : Engine γ) : s.rewind.account = s.account.close := by
  rw [rewind_eq]
  exact account_dropped rfl rfl

/-- A failure closes the account of a run that is going on. -/
theorem account_fail (s : Engine γ) (d : Diagnostic) :
    (s.fail d).account = if s.mode = .running then s.account.close else s.account :=
  calc (s.fail d).account
      = (s.noted d).stopRun.account := spoilLoad_same _ account rfl
    _ = if s.mode = .running then s.account.close else s.account := by
      have hnoted : (s.noted d).mode = s.mode := rfl
      unfold stopRun
      rw [hnoted]
      by_cases hmode : s.mode = .running
      · rw [if_pos hmode, if_pos hmode]
        exact account_stop (s.noted d)
      · rw [if_neg hmode, if_neg hmode]
        rfl

/-! ### Taking values -/

/-- **Taking values.**  An `INPUT` takes one value for each of its variables, from the front, as
    long as there are any, and asks for those of the variables that are wanting. -/
theorem ask_eq (line : Option Nat) (s : Engine γ) (xs : List Letter) :
    ask line s xs = { s with
      machine := s.machine.store (xs.zip s.queue), queue := s.queue.drop xs.length,
      pending := if xs.drop s.queue.length = [] then s.pending
        else some ⟨xs.drop s.queue.length, line⟩ } := by
  -- Each variable takes a value off the queue before the next one is looked at.
  induction xs generalizing s with
  | nil => simp [ask, Machine.store]
  | cons x xs ih =>
    unfold ask
    split
    next h => simp [h, Machine.store]
    next n queue h =>
      rw [ih, h]
      rfl

/-! ### What statements leave alone -/

/-- Whether two engines have the same errors, the same direct statement, and the same place in a
    file, and the second has no line that the first has not. -/
structure IsLike (s t : Engine γ) : Prop where
  /-- The errors are the same. -/
  errors : t.errors = s.errors
  /-- The place in a file is the same. -/
  fileLine : t.fileLine = s.fileLine
  /-- The direct statement is the same. -/
  direct : t.direct = s.direct
  /-- No line is new. -/
  lines : t.listing.lines ⊆ s.listing.lines

/-- Engines with the same program, errors, direct statement and place in a file are alike. -/
theorem isLike_of_eq (herrors : t.errors = s.errors) (hfile : t.fileLine = s.fileLine)
    (hdirect : t.direct = s.direct) (hlisting : t.listing = s.listing) : s.IsLike t :=
  ⟨herrors, hfile, hdirect, hlisting ▸ List.Subset.refl _⟩

/-- Effects of statements are no errors. -/
theorem apply_isLike (effect : Effect) (line : Option Nat) (s : Engine γ) :
    s.IsLike (effect.apply line s) := by
  cases effect with
  | ask xs =>
    rw [Effect.apply, ask_eq]
    exact isLike_of_eq rfl rfl rfl rfl
  | clear =>
    refine ⟨stop_errors _, stop_fileLine _, stop_direct _, ?_⟩
    rw [Effect.apply, stop_listing]
    exact List.nil_subset _
  | halt => exact isLike_of_eq (stop_errors _) (stop_fileLine _) (stop_direct _) (stop_listing _)
  | restart warning => cases warning <;> apply isLike_of_eq <;> simp [Effect.apply, rewind_eq, emit]
  | _ => exact isLike_of_eq rfl rfl rfl rfl

/-- A statement that succeeds makes no error and stores no line. -/
theorem execute_ok_isLike [RandomSource γ] {s t : Engine γ} {line : Option Nat}
    {statement : Statement} {u : Unit} (h : execute line statement s = .ok u t) : s.IsLike t := by
  rcases execute_ok h with ⟨-, m, rfl⟩ | ⟨body, m, effect, m', -, -, rfl⟩
  · exact isLike_of_eq rfl rfl rfl rfl
  · obtain ⟨herrors, hfile, hdirect, hlines⟩ := apply_isLike effect line { s with machine := m' }
    exact ⟨herrors, hfile, hdirect, hlines⟩

/-- A statement that fails has made no error yet and stored no line. -/
theorem execute_error_isLike [RandomSource γ] {s t : Engine γ} {line : Option Nat}
    {statement : Statement} {fault : Fault} (h : execute line statement s = .error fault t) :
    s.IsLike t := by
  obtain ⟨⟨m, rfl⟩, -⟩ := execute_error h
  exact isLike_of_eq rfl rfl rfl rfl

/-- Before and after its statement a line does no more than to write. -/
theorem IsLike.of_begun {line : Line} (h : (s.begun line).IsLike t) : s.IsLike (t.timed line) := by
  obtain ⟨herrors, hfile, hdirect, hlines⟩ := h
  rw [begun_eq] at herrors hfile hdirect hlines
  rw [timed_eq]
  exact ⟨herrors, hfile, hdirect, hlines⟩

/-! ### Going on -/

variable {a : Account}

/-- Whether an engine without a direct statement has an account, which is closed if there is no run,
    and asks for values only on behalf of a run with none left. -/
structure HasAccount (a : Account) (s : Engine γ) : Prop where
  account : s.account = if s.isIdle then a.close else a
  waits : s.pending ≠ none → s.mode = .running ∧ s.queue = []
  direct : s.direct = none

/-- While a run lasts its account is open. -/
theorem hasAccount_of_running (hmode : s.mode = .running) (ha : s.account = a)
    (hwaits : s.pending ≠ none → s.queue = []) (hdirect : s.direct = none) : s.HasAccount a where
  account := by
    have hidle : ¬ s.isIdle := by simp [isIdle, hmode]
    rw [if_neg hidle, ha]
  waits h := ⟨hmode, hwaits h⟩
  direct := hdirect

/-- A run that is over has closed its account. -/
theorem hasAccount_stop (ha : s.account = a) (hdirect : s.direct = none) : s.stop.HasAccount a where
  account := by rw [if_pos (stop_isIdle s), account_stop, ha]
  waits h := absurd (stop_pending s) h
  direct := (stop_direct s).trans hdirect

/-- A run that fails has closed its account. -/
theorem hasAccount_fail (hmode : s.mode = .running) (ha : s.account = a) (hdirect : s.direct = none)
    (d : Diagnostic) : (s.fail d).HasAccount a where
  account := by
    have hidle : (s.fail d).isIdle := fail_isIdle s d (by simp [hmode])
    rw [if_pos hidle, account_fail, if_pos hmode, ha]
  waits h := absurd (fail_pending s d) h
  direct := (fail_direct s d).trans hdirect

/-- Writing the time of a line keeps the account in order. -/
theorem HasAccount.timed (hs : s.HasAccount a) (line : Line) : (s.timed line).HasAccount a := by
  obtain ⟨haccount, hwaits, hdirect⟩ := hs
  have htimed := s.timed_eq line
  refine ⟨?_, ?_, (timed_direct s line).trans hdirect⟩
  · rw [account_timed, haccount, htimed]
    rfl
  · rw [htimed]
    exact hwaits

/-- A run that begins again has closed its account. -/
theorem hasAccount_rewind (ha : s.account = a) (hmode : s.mode = .running)
    (hpending : s.pending = none) (hdirect : s.direct = none) : s.rewind.HasAccount a.close := by
  have haccount : s.rewind.account = a.close := by rw [account_rewind, ha]
  rw [rewind_eq] at haccount ⊢
  exact hasAccount_of_running hmode haccount (fun h => absurd hpending h) hdirect

/-- A run that is suspended keeps its account. -/
theorem hasAccount_pauseAt (ha : s.account = a) (hpending : s.pending = none)
    (hdirect : s.direct = none) (line : Line) (hit : Hit) : (s.pauseAt line hit).HasAccount a := by
  have haccount : (s.pauseAt line hit).account = a := by
    rw [← ha]
    let source := "[" ++ line.source ++ "]\n"
    cases hit with
    | persistent =>
      let t := s.emit (.output ("Breakpoint: " ++ Text.ofNat line.number ++ "\n"))
      exact (t.account_output source).trans (s.account_output _)
    | oneShot => exact s.account_output source
  have hidle : ¬ (s.pauseAt line hit).isIdle := by
    rw [pauseAt_eq]
    simp [isIdle]
  refine ⟨by rw [if_neg hidle, haccount], ?_, ?_⟩
  · rw [pauseAt_eq]
    exact fun h => absurd hpending h
  · rw [pauseAt_eq]
    exact hdirect

/-- Going on after a line leaves the machine alone. -/
theorem finishLine_machine (s : Engine γ) : s.finishLine.2.machine = s.machine := by
  generalize hr : s.finishLine = r
  cases hr ▸ finishLine_cases s with
  | moved | stepped => rfl
  | fellOff => exact fail_machine s _

/-- Going on after a line asks for nothing. -/
theorem finishLine_pending (hpending : s.pending = none) : s.finishLine.2.pending = none := by
  generalize hr : s.finishLine = r
  cases hr ▸ finishLine_cases s with
  | moved | stepped => exact hpending
  | fellOff => exact fail_pending s _

/-- After a line that is done with, the account stays open if there is a line to go on at. -/
theorem hasAccount_finishLine (hmode : s.mode = .running) (hpending : s.pending = none)
    (hdirect : s.direct = none) : s.finishLine.2.HasAccount s.account := by
  generalize hr : s.finishLine = r
  cases hr ▸ finishLine_cases s with
  | moved | stepped =>
    exact hasAccount_of_running hmode (account_same rfl rfl) (fun h => absurd hpending h) hdirect
  | fellOff => exact hasAccount_fail hmode rfl hdirect _

variable [RandomSource γ]

/-- The account after the statement of a program line. -/
theorem hasAccount_execute {statement : Statement} {k : Nat} {u : Unit} (hmode : s.mode = .running)
    (hpending : s.pending = none) (hdirect : s.direct = none)
    (h : execute (some k) statement s = .ok u t) :
    t.HasAccount (s.account.after statement s.machine) := by
  have hwaits : s.pending ≠ none → s.queue = [] := fun h => absurd hpending h
  -- A statement that is skipped has no effect; otherwise there is one case for each effect.
  rcases execute_ok h with ⟨hcomes, m, rfl⟩ | ⟨body, m, effect, m', hcomes, hdoes, rfl⟩
  · rw [Account.after_of_skipped hcomes]
    exact hasAccount_of_running hmode rfl hwaits hdirect
  rw [Account.after_of_comesTo hcomes]
  cases hdoes with
  | remark | assign | goto | gosub | ret =>
    exact hasAccount_of_running hmode (account_same rfl rfl) hwaits hdirect
  | print | list => exact hasAccount_of_running hmode (account_output _ _) hwaits hdirect
  | clear | halt => exact hasAccount_stop rfl hdirect
  | launchAt hline | launch hline => cases hline
  | @input _ targets =>
    let xs := targets.map Target.name
    show (Engine.ask (some k) { s with machine := m } xs).HasAccount (s.account.draw targets.length)
    rw [ask_eq, ← List.length_map Target.name]
    refine hasAccount_of_running hmode rfl (fun hasked => ?_) hdirect
    -- Values are asked for only where there are more variables than values.
    have hwanting : xs.drop s.queue.length ≠ [] := by
      intro hnil
      exact hasked (by simp only [hnil, if_pos, hpending])
    exact List.drop_eq_nil_of_le (Nat.le_of_lt (by simpa using hwanting))
  | restart =>
    split
    · exact hasAccount_rewind rfl hmode hpending hdirect
    · -- That the program cannot give itself values is another warning.
      refine hasAccount_rewind (account_emit ?_) hmode hpending hdirect
      simp [Cause.diagnostic, Fault.diagnostic, Diagnostic.atLine, Cause.code]

/-- A statement that fails has taken no values. -/
theorem after_of_error {statement : Statement} {k : Nat} {fault : Fault}
    (h : execute (some k) statement s = .error fault t) :
    s.account.after statement s.machine = s.account := by
  cases hcomes : statement.comesTo? s.machine with
  | none => exact Account.after_of_skipped hcomes
  | some come =>
    obtain ⟨body, m⟩ := come
    rw [Account.after_of_comesTo hcomes]
    rw [execute_comesTo hcomes] at h
    cases body with
    | input | run => cases h
    | _ => rfl

/-- The account after a program line. -/
theorem hasAccount_executeLine (l : Line) (hmode : s.mode = .running) (hpending : s.pending = none)
    (hdirect : s.direct = none) :
    (s.executeLine l).2.HasAccount (s.account.after l.statement s.machine) := by
  let b := s.begun l
  have hb : b = { s with transcript := b.transcript, branch := none } := begun_eq s l
  have haccount : b.account = s.account := account_begun s l
  obtain ⟨hbmode, hbpending, hbdirect, hbmachine⟩ :
      b.mode = .running ∧ b.pending = none ∧ b.direct = none ∧ b.machine = s.machine := by
    rw [hb]
    exact ⟨hmode, hpending, hdirect, rfl⟩
  -- From here on the engine is the one at the beginning of the line, which has the same account.
  rw [← haccount, ← hbmachine]
  generalize hr : s.executeLine l = r
  cases hr ▸ executeLine_cases s l with
  | failed fault t hexecute =>
    have hquiet := after_of_error hexecute
    obtain ⟨⟨m, rfl⟩, -⟩ := execute_error hexecute
    let u : Engine γ := { b with machine := m }
    have humode : (u.timed l).mode = .running := (timed_mode u l).trans hbmode
    have hudirect : (u.timed l).direct = none := (timed_direct u l).trans hbdirect
    rw [hquiet]
    exact hasAccount_fail humode (account_timed u l) hudirect _
  | ended t hexecute => exact (hasAccount_execute hbmode hbpending hbdirect hexecute).timed l
  | asked t hexecute => exact (hasAccount_execute hbmode hbpending hbdirect hexecute).timed l
  | finished t hexecute hrunning hnone =>
    obtain ⟨haccount, -, hdirect⟩ := (hasAccount_execute hbmode hbpending hbdirect hexecute).timed l
    have hidle : ¬ (t.timed l).isIdle := by simp [isIdle, hrunning]
    rw [if_neg hidle] at haccount
    rw [← haccount]
    exact hasAccount_finishLine ((timed_mode t l).trans hrunning)
      ((timed_pending t l).trans hnone) hdirect

/-- **Going on.**  Whatever comes of it, the account of a run is open as long as the run lasts and
    has been closed after it. -/
theorem hasAccount_advance (hs : s.HasAccount s.account) :
    s.advance.2.HasAccount
      (s.executed?.elim s.account fun l => s.account.after l.statement s.machine) := by
  -- Only the last of the cases is that of a line that is executed.
  generalize hr : s.advance = r
  have hclosed : (∀ l, ¬ s.IsOpen l) → s.executed? = none := fun h =>
    Option.eq_none_iff_forall_ne_some.2 fun l hl => h l (executed?_eq_some.1 hl)
  cases hr ▸ advance_cases s with
  | idle hmode =>
    rw [hclosed fun l hopen => hmode hopen.1]
    exact hs
  | waiting _ hpending =>
    rw [hclosed fun l hopen => hpending hopen.2.1]
    exact hs
  | lost hmode _ hline =>
    rw [hclosed fun l ⟨_, _, hl, _⟩ => by simp [hline] at hl]
    exact hasAccount_fail hmode rfl hs.direct _
  | stopped line hmode hpending hline hresume hmarked =>
    have hnone : s.executed? = none := by
      refine hclosed fun l ⟨_, _, hl, hopen⟩ => ?_
      obtain rfl : line = l := Option.some.inj (hline.symm.trans hl)
      rcases hopen with h | h
      · simp [hresume] at h
      · exact h hmarked
    rw [hnone]
    exact hasAccount_pauseAt (s := { s with breakpoints := s.breakpoints.disarm }) rfl hpending
      hs.direct _ _
  | executed l hopen =>
    rw [executed?_eq_some.2 hopen]
    exact hasAccount_executeLine (s := { s with resume := false }) l hopen.1 hopen.2.1 hs.direct

/-- Answers do not concern the account, but for a warning that there are too many of them. -/
theorem hasAccount_answer {q : Inquiry} (hmode : s.mode = .running) (hqueue : s.queue = [])
    (hdirect : s.direct = none) (text : String) :
    (s.answer q text).HasAccount (s.account.warn (hasSpare s.machine q text).toNat) := by
  obtain ⟨reading, hexcess, -, hanswer⟩ := answer_uniform s.machine q text
  rw [hanswer s rfl, ← hexcess]
  cases reading with
  | bad machine d =>
    exact hasAccount_fail (s := { s with machine, pending := none }) hmode rfl hdirect d
  | taken machine awaiting excess =>
    -- Whether there are answers to spare makes a difference of one warning and of nothing else.
    let v : Engine γ := { s with machine, pending := none }
    let u := if excess then v.emit (.notice Cause.excessInput.diagnostic) else v
    obtain ⟨humode, huqueue, hupending, hudirect, haccount⟩ :
        u.mode = .running ∧ u.queue = [] ∧ u.pending = none ∧ u.direct = none ∧
          u.account = s.account.warn excess.toNat := by
      cases excess with
      | false => exact ⟨hmode, hqueue, rfl, hdirect, rfl⟩
      | true => exact ⟨hmode, hqueue, rfl, hdirect, account_spare v⟩
    show (if awaiting ≠ [] then { u with pending := some { q with awaiting } }
      else if q.line.isSome && u.mode = .running then u.finishLine.2 else u).HasAccount _
    rw [Reading.isExcess, ← haccount]
    split
    · exact hasAccount_of_running humode rfl (fun _ => huqueue) hudirect
    · split
      · exact hasAccount_finishLine humode hupending hudirect
      · exact hasAccount_of_running humode rfl (fun _ => huqueue) hudirect

/-- A program line that comes to an `INPUT` stores what is taken from the account, and asks for the
    rest. -/
theorem executeLine_input {l : Line} {span : Span} {targets : List Target} {m : Machine γ}
    (hmode : s.mode = .running) (hpending : s.pending = none)
    (hcomes : l.statement.comesTo? s.machine = some (.input span targets, m)) :
    (s.executeLine l).2.machine = m.store ((targets.map Target.name).zip s.queue) ∧
      ∀ q, (s.executeLine l).2.pending = some q →
        q.awaiting = (targets.map Target.name).drop s.queue.length := by
  let b := s.begun l
  have hb : b = { s with transcript := b.transcript, branch := none } := begun_eq s l
  obtain ⟨hbmode, hbpending, hbmachine, hbqueue⟩ :
      b.mode = .running ∧ b.pending = none ∧ b.machine = s.machine ∧ b.queue = s.queue := by
    rw [hb]
    exact ⟨hmode, hpending, rfl, rfl⟩
  -- The line leaves what `INPUT` leaves: it asks for the variables that the queue does not reach.
  let u := ask (some l.number) { b with machine := m } (targets.map Target.name)
  have hexecute : execute (some l.number) l.statement b = .ok () u := by
    rw [execute_comesTo (hbmachine ▸ hcomes)]
    rfl
  have hu : u = _ := ask_eq (some l.number) { b with machine := m } (targets.map Target.name)
  have hmachine : u.machine = m.store ((targets.map Target.name).zip s.queue) := by
    rw [hu, ← hbqueue]
  have hasked : ∀ q, u.pending = some q →
      q.awaiting = (targets.map Target.name).drop s.queue.length := by
    intro q hq
    rw [hu] at hq
    dsimp only at hq
    split at hq
    · simp [hbpending] at hq
    · rw [← Option.some.inj hq, hbqueue]
  have humode : u.mode = .running := by
    rw [hu]
    exact hbmode
  rw [executeLine_of_running hexecute humode]
  split
  next hnone =>
    have hlast : (u.timed l).finishLine.2.pending = none :=
      finishLine_pending ((timed_pending u l).trans hnone)
    refine ⟨?_, fun q hq => by simp [hlast] at hq⟩
    rw [finishLine_machine, timed_machine, hmachine]
  next =>
    exact ⟨(timed_machine u l).trans hmachine, fun q hq => hasked q (by rwa [timed_pending] at hq)⟩

end Engine

end LineBasic
