import LineBasic.Proofs.Engine.Account
import LineBasic.Proofs.Engine.Happened
import LineBasic.Proofs.Engine.Source
import LineBasic.Random.ChaCha

namespace LineBasic

open Engine

/-!
# The values of a run

The values that a direct `RUN` has for its run are taken by `INPUT`s in order, and what is left of
them is dropped when the run is over or begins again, with one warning.

* `Moment.launched?` -- a direct `RUN` begins a run;
* `Moment.served`, `Moment.restarts` -- what the line executed in a moment does with the values;
* `Moment.Tallies`, `tallies_after` -- what any moment of a run does with them;
* `Moment.KeepsValues`, `run_keeps_values` -- the main result, for all runs and all that is done
  meanwhile.
-/

variable {γ : Type}

/-- Whether a text is a statement without a line number. -/
def Entry.isDirect (text : String) : Bool :=
  match Entry.ofText text with
  | .ok (.direct _) => true
  | _ => false

namespace Moment

/-- Whether a direct statement is entered in a moment. -/
def entersDirect : Moment γ → Bool
  | act s (.enter text) => s.pending.isNone && Entry.isDirect text
  | _ => false

variable [RandomSource γ]

/-- The values that the line executed in a moment takes from those of the run, each with its
    variable. -/
def served (m : Moment γ) : List (Letter × Int16) :=
  m.executed?.elim [] fun l => l.statement.serves m.before.machine m.before.queue

/-- Whether the line executed in a moment begins the program again. -/
def restarts (m : Moment γ) : Bool := m.executed?.any fun l => l.statement.restarts m.before.machine

/-- Whether there are more answers than are asked for in a moment. -/
def hasSpare : Moment γ → Bool
  | act s (.enter text) => s.pending.any fun q => Engine.hasSpare s.machine q text
  | _ => false

/-- The values with which a direct `RUN` begins a run in a moment. -/
def launched? : Moment γ → Option (List Int16)
  | tick s =>
    if s.errors = [] ∧ s.pending = none ∧ s.mode ≠ .paused ∧ s.listing.first?.isSome then
      s.direct.bind fun d =>
        match d.statement.comesTo? s.machine with
        | some (.run _ arguments, m) =>
          match evalAll arguments m with
          | .ok vs _ => some vs
          | .error .. => none
        | _ => none
    else none
  | act .. => none

/-- Whether a suspended run is given up because of an error in the file that is being loaded. -/
def spoils (m : Moment γ) : Bool := m.before.mode = .paused && m.after.mode = .loadFailed

/-- What a moment of a run does with the values, if it leaves an engine: they stay as they are but
    for those that are taken, or the account of the run is closed. -/
structure Tallies (m : Moment γ) (t : Engine γ) : Prop where
  direct : t.direct = none
  waits : t.pending ≠ none → t.mode = .running ∧ t.queue = []
  onward : ¬ t.isIdle → m.restarts = false → t.queue = m.before.queue.drop m.served.length
  closed : t.isIdle ∨ m.restarts → ¬ (m.before.mode = .paused ∧ t.mode = .loadFailed) →
    t.account = ((m.before.account.warn m.hasSpare.toNat).draw m.served.length).close

end Moment

/-! ### Moments -/

section Moments

variable [RandomSource γ] {m : Moment γ} {t : Engine γ}

/-- There is no spare answer where nothing is asked for. -/
theorem hasSpare_of_pending (h : m.before.pending = none) : m.hasSpare = false := by
  cases m with
  | tick => rfl
  | act s a =>
    have hpending : s.pending = none := h
    cases a with
    | enter => simp [Moment.hasSpare, hpending]
    | _ => rfl

/-- A program that begins again takes no values meanwhile. -/
theorem served_of_restarts (h : m.restarts) : m.served = [] := by
  obtain ⟨l, hexecuted, hrestarts⟩ := Option.any_eq_true _ _ |>.1 h
  unfold Statement.restarts at hrestarts
  simp only [Moment.served, hexecuted, Option.elim_some, Statement.serves]
  split at hrestarts
  next hcomes => simp [hcomes]
  next => cases hrestarts

/-- The account after a moment, as long as the run goes on. -/
def Moment.accountAfter (m : Moment γ) : Account :=
  let a := m.before.account.warn m.hasSpare.toNat
  if m.restarts then a.close else a.draw m.served.length

/-- In a moment without an executed line nothing but spare answers changes the account. -/
theorem accountAfter_of_not_executed (hexecuted : m.executed? = none) :
    m.accountAfter = m.before.account.warn m.hasSpare.toNat := by
  simp [Moment.accountAfter, Moment.restarts, Moment.served, hexecuted]

/-- An engine with the right account is a possible outcome of the moment. -/
theorem Engine.HasAccount.tallies (ht : t.HasAccount m.accountAfter) : m.Tallies t := by
  obtain ⟨haccount, hwaits, hdirect⟩ := ht
  unfold Moment.accountAfter at haccount
  refine ⟨hdirect, hwaits, fun hidle hrestarts => ?_, fun hover _ => ?_⟩
  · rw [if_neg hidle, if_neg (by simp [hrestarts])] at haccount
    exact congrArg Account.left haccount
  -- A program that begins again has closed the account already.
  · by_cases hrestarts : m.restarts = true
    · simp [haccount, hrestarts, served_of_restarts hrestarts]
    · rw [if_pos (hover.resolve_right hrestarts), if_neg hrestarts] at haccount
      exact haccount

/-- A moment without an executed line that ends a run. -/
theorem tallies_stop {u : Engine γ} (hexecuted : m.executed? = none) (hspare : m.hasSpare = false)
    (haccount : u.account = m.before.account) (hdirect : u.direct = none) : m.Tallies u.stop := by
  apply HasAccount.tallies
  rw [accountAfter_of_not_executed hexecuted, hspare]
  exact hasAccount_stop haccount hdirect

/-- A moment without an executed line that leaves a run its values. -/
theorem tallies_same (hexecuted : m.executed? = none) (hqueue : t.queue = m.before.queue)
    (hrun : ¬ t.isIdle) (hwaits : t.pending ≠ none → t.mode = .running ∧ t.queue = [])
    (hdirect : t.direct = none) : m.Tallies t where
  direct := hdirect
  waits := hwaits
  onward _ _ := by simp [hqueue, Moment.served, hexecuted]
  closed h := by
    rcases h with h | h
    · exact absurd h hrun
    · simp [Moment.restarts, hexecuted] at h

/-- A failure of something other than a line. -/
theorem tallies_fail {u : Engine γ} (hexecuted : m.executed? = none) (hspare : m.hasSpare = false)
    (hrun : ¬ m.before.isIdle) (hmode : u.mode = m.before.mode)
    (haccount : u.account = m.before.account) (hdirect : u.direct = none) (d : Diagnostic) :
    m.Tallies (u.fail d) := by
  rcases not_isIdle_iff.1 hrun with hrunning | hpaused
  · apply HasAccount.tallies
    rw [accountAfter_of_not_executed hexecuted, hspare]
    exact hasAccount_fail (hmode.trans hrunning) haccount hdirect d
  · -- A run that is suspended stays so, or it is given up because the file in which this happens is
    -- spoilt.
    have hsame : (u.fail d).account = m.before.account := by
      rw [account_fail, if_neg (by simp [hmode, hpaused]), haccount]
    have hqueue : (u.fail d).queue = m.before.queue := congrArg Account.left hsame
    refine ⟨(fail_direct u d).trans hdirect, fun h => absurd (fail_pending u d) h,
      fun _ _ => ?_, ?_⟩
    · simp [hqueue, Moment.served, hexecuted]
    · intro hover hload
      rcases fail_mode_of_paused u d (hmode.trans hpaused) with h | h
      · simp [isIdle, h, Moment.restarts, hexecuted] at hover
      · exact absurd ⟨hpaused, h⟩ hload

/-- A moment in which a run goes on. -/
theorem tallies_advance (hadvance : m.isAdvance) (hs : m.before.HasAccount m.before.account) :
    m.Tallies m.before.advance.2 := by
  have hspare : m.hasSpare = false := by
    cases m with
    | tick => rfl
    | act s a => cases a <;> first | rfl | cases hadvance
  have hafter : m.accountAfter = m.before.executed?.elim m.before.account fun l =>
      m.before.account.after l.statement m.before.machine := by
    rw [← (Moment.isAdvance_spec hadvance).2]
    unfold Moment.accountAfter Moment.restarts Moment.served
    rw [hspare]
    cases m.executed? <;> rfl
  -- So what `advance` leaves is what the line that is executed makes of the account.
  apply HasAccount.tallies
  rw [hafter]
  exact hasAccount_advance hs

/-- **Moments of a run.**  Whatever is done but to enter direct statements, the values of a run stay
    as they are but for those that are taken, until its account is closed. -/
theorem tallies_after (hrun : ¬ m.before.isIdle) (hdirect : m.before.direct = none)
    (hwaits : m.before.pending ≠ none → m.before.mode = .running ∧ m.before.queue = [])
    (henters : m.entersDirect = false) : m.Tallies m.after := by
  by_cases hadvance : m.isAdvance = true
  · rw [(Moment.isAdvance_spec hadvance).1]
    exact tallies_advance hadvance ⟨by rw [if_neg hrun], hwaits, hdirect⟩
  have hexecuted : m.executed? = none :=
    Option.eq_none_iff_forall_ne_some.2 fun l hl => hadvance (Moment.isAdvance_of_executed hl)
  -- A run that is suspended asks for no values.
  have hpaused : m.before.mode = .paused → m.before.pending = none := by
    intro hmode
    by_contra hpending
    have hrunning := (hwaits hpending).1
    simp [hmode] at hrunning
  have hhappened := m.happened
  generalize m.after = t at hhappened
  cases hhappened with
  | aside | noticed | stored | deleted | marked | unmarked | unmarkedAll =>
    exact tallies_same hexecuted rfl hrun hwaits hdirect
  | advanced h => exact absurd h hadvance
  | carriedOut _ _ h => cases h.symm.trans hdirect
  | @answered s text q hq =>
    obtain ⟨hmode, hqueue⟩ := hwaits (by show s.pending ≠ none; simp [hq])
    have hspare : (Moment.act s (.enter text)).hasSpare = Engine.hasSpare s.machine q text := by
      simp [Moment.hasSpare, hq]
    apply HasAccount.tallies
    rw [accountAfter_of_not_executed hexecuted, hspare]
    exact hasAccount_answer (s := s.counted) hmode hqueue hdirect text
  | @misread s text hpending transcript hquiet d =>
    let u : Engine γ := { s.counted with transcript }
    have haccount : u.account = s.account := account_same rfl (hquiet _)
    exact tallies_fail (u := u) hexecuted (hasSpare_of_pending hpending) hrun rfl haccount hdirect d
  | @putBy s text _ hpending hentry =>
    have hdirectEntry : Entry.isDirect text = true := by
      rw [Entry.ofText_trimmed] at hentry
      simp [Entry.isDirect, hentry]
    simp [Moment.entersDirect, hpending, hdirectEntry] at henters
  | interrupted _ d => exact tallies_fail hexecuted rfl hrun rfl rfl hdirect d
  | released _ ht =>
    obtain ⟨hmode, stepping, rfl⟩ := ht
    exact tallies_same hexecuted rfl (by simp [isIdle]) (fun h => absurd (hpaused hmode) h) hdirect
  | gaveUp hmode => exact tallies_stop hexecuted (hasSpare_of_pending (hpaused hmode)) rfl hdirect
  | beganLoad => exact tallies_stop hexecuted rfl rfl rfl
  | @endedLoad s =>
    -- The end of a file is no end of a run that was begun in it.
    have hmode : s.endLoad.2.mode = s.mode := by
      have hrun : s.mode = .running ∨ s.mode = .paused := not_isIdle_iff.1 hrun
      unfold Engine.endLoad
      rcases hrun with h | h <;> simp [h]
    refine tallies_same hexecuted rfl ?_ ?_ hdirect
    · rw [isIdle, hmode]
      exact hrun
    · rw [hmode]
      exact hwaits

end Moments

/-! ### Runs -/

section Runs

variable [RandomSource γ] {m : Moment γ}

/-- A direct `RUN` that has values begins a run with them. -/
theorem execute_launch {s : Engine γ} {span : Span} {arguments : List Expr} {first : Nat}
    {vs : List Int16} {machine : Machine γ} (hmode : s.mode ≠ .paused)
    (hfirst : s.listing.first? = some first)
    (hvalues : evalAll arguments s.machine = .ok vs machine) :
    execute none (.run span arguments) s =
      .ok () ({ s with machine, queue := vs }.startRun first) := by
  rw [execute, executeRun, bind_of_ok (guardPaused_ok span fun _ => hmode), get_bind]
  simp only [hfirst]
  rw [bind_of_ok (evaluating_ok hvalues)]
  rfl

/-- A direct `RUN` that begins a run leaves its values in the queue, and nothing else pending. -/
theorem after_of_launched? {vs : List Int16} (h : m.launched? = some vs) :
    m.after.mode = .running ∧ m.after.queue = vs ∧ m.after.pending = none ∧
      m.after.direct = none := by
  cases m with
  | act => cases h
  | tick s =>
    simp only [Moment.launched?] at h
    split at h
    next hready =>
      obtain ⟨herrors, hpending, hmode, hfirst⟩ := hready
      obtain ⟨first, hfirst⟩ := Option.isSome_iff_exists.1 hfirst
      obtain ⟨d, hdirect, h⟩ := Option.bind_eq_some_iff.1 h
      split at h
      next span arguments machine hcomes =>
        split at h
        next values machine' hvalues =>
          obtain rfl := Option.some.inj h
          let u : Engine γ := { s with direct := none }
          let v : Engine γ := { u with machine := machine', queue := values }
          have hexecute : execute none d.statement u = .ok () (v.startRun first) :=
            (execute_comesTo (s := u) hcomes).trans
              (execute_launch (s := { u with machine := machine }) hmode hfirst hvalues)
          have hafter : s.ticked = v.startRun first := by
            rw [ticked_of_direct herrors hpending hdirect, carryOut, hexecute]
          show s.ticked.mode = _ ∧ s.ticked.queue = _ ∧ s.ticked.pending = _ ∧ s.ticked.direct = _
          rw [hafter]
          exact ⟨rfl, rfl, hpending, rfl⟩
        next => cases h
      next => cases h
    next => cases h

/-- What is taken and what is left are the values that there were. -/
theorem served_append_drop (m : Moment γ) :
    m.served.map Prod.snd ++ m.before.queue.drop m.served.length = m.before.queue := by
  have hzip : ∀ (xs : List Letter) (queue : List Int16),
      (xs.zip queue).map Prod.snd ++ queue.drop (xs.zip queue).length = queue := by
    intro xs
    induction xs with
    | nil => intro queue; rfl
    | cons x xs ih =>
      intro queue
      cases queue with
      | nil => rfl
      | cons n queue => simpa using ih queue
  unfold Moment.served
  cases m.executed? with
  | none => rfl
  | some l =>
    simp only [Option.elim_some, Statement.serves]
    split
    · exact hzip _ _
    · rfl

/-- What becomes of the values of a run in a moment of it, when some of them have been taken
    before. -/
structure Moment.KeepsValues (vs : List Int16) (taken : List (Letter × Int16))
    (m : Moment γ) : Prop where
  /-- The values that have been taken and those that are left are the values that the run was
      given. -/
  before : taken.map Prod.snd ++ m.before.queue = vs
  /-- So they are afterwards, unless the run is over or the program begins again. -/
  after : ¬ m.after.isIdle → m.restarts = false →
    (taken ++ m.served).map Prod.snd ++ m.after.queue = vs
  /-- Values are asked for only when none are left. -/
  waits : (m.before.pending ≠ none → m.before.queue = []) ∧
    (m.after.pending ≠ none → m.after.queue = [])
  /-- An `INPUT` stores the values that it takes, and asks for the variables that it has none
      for. -/
  stores : ∀ l span targets machine, m.executed? = some l →
    l.statement.comesTo? m.before.machine = some (.input span targets, machine) →
      m.served = (targets.map Target.name).zip m.before.queue ∧
        m.after.machine = machine.store m.served ∧
          ∀ q, m.after.pending = some q →
            q.awaiting = (targets.map Target.name).drop m.before.queue.length
  /-- When the run is over, or the program begins again, the values that are left are dropped, with
  one warning if there are any. -/
  drops : m.after.isIdle ∨ m.restarts → m.spoils = false →
    m.after.queue = [] ∧
      m.after.surpluses = m.before.surpluses + m.hasSpare.toNat +
        if m.before.queue.drop m.served.length = [] then 0 else 1

/-- What a moment does with the values is right, if the values before it were. -/
theorem keepsValues_of_tallies {vs : List Int16} {taken : List (Letter × Int16)}
    (hbefore : taken.map Prod.snd ++ m.before.queue = vs)
    (hwaits : m.before.pending ≠ none → m.before.mode = .running ∧ m.before.queue = [])
    (h : m.Tallies m.after) : m.KeepsValues vs taken where
  before := hbefore
  after hidle hrestarts := by
    rw [h.onward hidle hrestarts, List.map_append, List.append_assoc, served_append_drop, hbefore]
  waits := ⟨fun hpending => (hwaits hpending).2, fun hpending => (h.waits hpending).2⟩
  stores l span targets machine hexecuted hcomes := by
    obtain ⟨hafter, hsame⟩ := Moment.isAdvance_spec (Moment.isAdvance_of_executed hexecuted)
    have hopen : m.before.IsOpen l := executed?_eq_some.1 (hsame ▸ hexecuted)
    have hserved : m.served = (targets.map Target.name).zip m.before.queue := by
      simp only [Moment.served, hexecuted, Option.elim_some, Statement.serves, hcomes]
    have hinput :=
      executeLine_input (s := { m.before with resume := false }) hopen.1 hopen.2.1 hcomes
    rw [hafter, advance_of_isOpen hopen, hserved]
    exact ⟨rfl, hinput⟩
  drops hover hspoils := by
    have hload : ¬ (m.before.mode = .paused ∧ m.after.mode = .loadFailed) := by
      simpa [Moment.spoils] using hspoils
    have haccount := h.closed hover hload
    exact ⟨congrArg Account.left haccount, congrArg Account.warned haccount⟩

/-- Whether a run with some values has not come to its end, with those that have been taken. -/
structure Engine.RunsOn (vs : List Int16) (taken : List (Letter × Int16))
    (s : Engine γ) : Prop where
  running : ¬ s.isIdle
  direct : s.direct = none
  waits : s.pending ≠ none → s.mode = .running ∧ s.queue = []
  values : taken.map Prod.snd ++ s.queue = vs

/-- When a run begins none of its values has been taken. -/
theorem runsOn_of_launched? {vs : List Int16} (h : m.launched? = some vs) :
    m.after.RunsOn vs [] := by
  obtain ⟨hmode, hqueue, hpending, hdirect⟩ := after_of_launched? h
  exact ⟨by simp [isIdle, hmode], hdirect, fun h => absurd hpending h, hqueue⟩

/-- A moment of a run keeps the values, unless a direct statement is entered. -/
theorem Engine.RunsOn.keepsValues {vs : List Int16} {taken : List (Letter × Int16)}
    (hs : m.before.RunsOn vs taken) (henters : m.entersDirect = false) : m.KeepsValues vs taken :=
  keepsValues_of_tallies hs.values hs.waits (tallies_after hs.running hs.direct hs.waits henters)

/-- A moment that neither ends a run nor begins the program again. -/
theorem Engine.RunsOn.next {vs : List Int16} {taken : List (Letter × Int16)}
    (hs : m.before.RunsOn vs taken) (henters : m.entersDirect = false) (hidle : ¬ m.after.isIdle)
    (hrestarts : m.restarts = false) :
    m.after.RunsOn vs (taken ++ m.served) := by
  have htallies := tallies_after hs.running hs.direct hs.waits henters
  exact ⟨hidle, htallies.direct, htallies.waits, (hs.keepsValues henters).after hidle hrestarts⟩

/-- **Main result.**  Let a direct `RUN` begin a run with some values, and let no direct statement
    be entered while it lasts.  In each moment up to the end of the run, or up to the first moment
    in which the program begins again, the values are kept: none is lost, doubled or moved, and what
    is left at last is dropped once.  Only a run that is given up while it is suspended, because of
    an error in the file that is being loaded, leaves its values behind. -/
theorem run_keeps_values {s : Engine γ} {ops : List (Operation γ)} {vs : List Int16}
    {begun m : Moment γ} {earlier past future : List (Moment γ)}
    (htrail : s.trail ops = earlier ++ begun :: (past ++ m :: future))
    (hbegun : begun.launched? = some vs) (hdirect : ∀ k ∈ past ++ [m], k.entersDirect = false)
    (hpast : ∀ k ∈ past, ¬ k.after.isIdle ∧ k.restarts = false) :
    m.KeepsValues vs (past.flatMap Moment.served) := by
  have hpath : Path begun.after past m.before := by
    have hall := path_trail s ops
    rw [htrail] at hall
    exact hall.split.2.split.1
  -- The values are kept as long as the moments so far have been of the right kind.
  have hruns : (∀ k ∈ past, k.entersDirect = false ∧ ¬ k.after.isIdle ∧ k.restarts = false) →
      m.before.RunsOn vs (past.flatMap Moment.served) := by
    refine hpath.history_induction
      (I := fun past t =>
        (∀ k ∈ past, k.entersDirect = false ∧ ¬ k.after.isIdle ∧ k.restarts = false) →
        t.RunsOn vs (past.flatMap Moment.served)) (fun _ => runsOn_of_launched? hbegun) ?_
    intro past k ih hkinds
    obtain ⟨henters, hidle, hrestarts⟩ := hkinds k (by simp)
    have hk := ih fun k' hk' => hkinds k' (List.mem_append_left _ hk')
    simpa using hk.next henters hidle hrestarts
  have hm : m.entersDirect = false := hdirect m (by simp)
  exact (hruns fun k hk => ⟨hdirect k (List.mem_append_left _ hk), hpast k hk⟩).keepsValues hm

end Runs

/-- A program that asks for three values, and a run with four. -/
def fourValues : List (Operation ChaCha) :=
  [.act (.enter "10 INPUT A,B"), .act (.enter "20 IF A<B THEN INPUT C"), .act (.enter "30 PRINT C"),
    .act (.enter "40 END"), .act (.enter "RUN 1,2,3,4")]

/-- Three of the four values are taken, and the last one is dropped with one warning. -/
theorem run_keeps_values_fourValues :
    let s := (start (ChaCha.ofSeed 1)).run fourValues
    ∃ past m future, s.trail [.poll 9] = .tick s :: (past ++ m :: future) ∧
      m.KeepsValues [1, 2, 3, 4] (past.flatMap Moment.served) ∧
        m.before.queue = [4] ∧ m.after.isIdle ∧ m.after.surpluses = 1 := by
  intro s
  let ms := (s.trail [.poll 9]).tail
  obtain ⟨m, hm⟩ : ∃ m, ms[3]? = some m := Option.isSome_iff_exists.1 (by decide +kernel)
  have hstate : ms[3]?.any fun m => m.entersDirect = false ∧ m.before.queue = [4] ∧ m.after.isIdle ∧
      m.after.surpluses = 1 := by
    decide +kernel
  have hpast : ∀ k ∈ ms.take 3, k.entersDirect = false ∧ ¬ k.after.isIdle ∧ k.restarts = false := by
    decide +kernel
  have hlaunched : (Moment.tick s).launched? = some [1, 2, 3, 4] := by decide +kernel
  rw [hm] at hstate
  obtain ⟨henters, hqueue, hidle, hsurpluses⟩ : _ ∧ _ ∧ _ ∧ _ := by simpa using hstate
  have htrail : s.trail [.poll 9] = [] ++ .tick s :: (ms.take 3 ++ m :: ms.drop 4) := by
    have hdrop : ms.drop 3 = m :: ms.drop 4 := by
      rw [List.drop_eq_getElem?_toList_append, hm]
      rfl
    rw [← hdrop, List.take_append_drop]
    rfl
  refine ⟨ms.take 3, m, ms.drop 4, htrail, ?_, hqueue, hidle, hsurpluses⟩
  refine run_keeps_values htrail hlaunched ?_ fun k hk => (hpast k hk).2
  intro k hk
  rcases List.mem_append.1 hk with hk | hk
  · exact (hpast k hk).1
  · exact List.mem_singleton.1 hk ▸ henters

/-- A run that is begun by a file, suspended at a breakpoint, and given up for an error further on
    in the file. -/
def spoiltLoad : List (Operation ChaCha) :=
  [.act .beginLoad, .act (.enter "10 END"), .act (.setBreakpoint 10), .act (.enter "RUN 1")]

/-- When such a run is given up its value is still there, and there has been no warning. -/
theorem run_leaves_values_spoiltLoad :
    let ms := ((start (ChaCha.ofSeed 1)).run spoiltLoad).trail [.poll 2, .act (.enter "?")]
    (∀ m ∈ ms, m.entersDirect = false ∧ m.restarts = false) ∧
      ms.map Moment.launched? = [some [1], none, none] ∧
      ms.map (fun m => (m.after.mode, m.after.queue, m.after.surpluses)) =
        [(.running, [1], 0), (.paused, [1], 0), (.loadFailed, [1], 0)] := by
  intro ms
  decide +kernel

end LineBasic
