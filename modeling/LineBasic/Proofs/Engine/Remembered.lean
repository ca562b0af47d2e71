import LineBasic.Proofs.Engine.Accesses
import LineBasic.Proofs.Engine.Untouched

namespace LineBasic

open Engine

/-!
# What the memory remembers

Over a whole session the memory is used by the expressions that are evaluated, by `CLEAR` and by the
loading of files, and by nothing else.

* `Moment.accesses`, `Moment.serves` -- what is done with the memory in a moment;
* `Moment.Wipes`, `Moment.wipe_mem_accesses` -- when all bytes are made zero;
* `Engine.serves_path` -- what is done in some moments in a row;
* `Engine.memory_is_last_written` -- the main result, for all sessions.
-/

variable {γ : Type} [RandomSource γ]

namespace Moment

/-- What is done with the memory in a moment. -/
def accesses (k : Moment γ) : List MemoryAccess :=
  match k.carried? with
  | some (line, statement) => statement.accesses line k.before.view k.before.machine
  | none =>
    match k with
    | act s (.enter text) =>
      s.pending.elim [] fun q => accessesOfAnswers q.awaiting (answersIn text) s.machine
    | act _ .beginLoad => [.wipe]
    | _ => []

/-- Whether all bytes are made zero in a moment: the loading of a file begins, or a statement comes
    to `CLEAR`. -/
def Wipes (k : Moment γ) : Prop :=
  (∃ s, k = .act s .beginLoad) ∨ ∃ line statement span m,
    k.CarriesOut line statement ∧ statement.comesTo? k.before.machine = some (.clear span, m)

end Moment

/-! ### Entries -/

namespace Engine

/-- Entering a text does the accesses of its answers, if a question is pending, and no others. -/
theorem enter_serves (s : Engine γ) (text : String) :
    s.memory.Serves (s.pending.elim [] fun q => accessesOfAnswers q.awaiting
      (answersIn text) s.machine) (s.enter text).2.memory := by
  cases hpending : s.pending with
  | none =>
    rw [memory, memory, enter_machine hpending]
    exact .nil
  | some q =>
    have hserves :=
      takeAnswers_serves q.line q.awaiting (answersIn text) { s.counted with pending := none }
    rw [← answer_memory] at hserves
    rw [enter_of_pending hpending]
    exact hserves

omit [RandomSource γ] in
/-- The beginning of a load wipes the memory. -/
theorem beginLoad_serves (s : Engine γ) : s.memory.Serves [.wipe] s.beginLoad.memory := by
  have hempty : s.beginLoad.memory = .empty := congrArg Machine.memory (stop_machine _)
  rw [hempty]
  exact .wiped .nil

end Engine

/-! ### Moments -/

namespace Moment

/-- **Moments.**  In a moment its accesses are done, and nothing else with the memory. -/
theorem serves (k : Moment γ) : k.before.memory.Serves k.accesses k.after.memory := by
  unfold accesses
  split
  next line statement hcarried =>
    obtain ⟨t, hview, hmachine, hafter⟩ := (carried?_eq_some.1 hcarried).machine
    have huses : t.memory.Serves (statement.accesses line t.view t.machine) _ :=
      execute_uses line statement t
    rw [hview, hmachine] at huses
    have hbefore : t.memory = k.before.memory := congrArg Machine.memory hmachine
    have hleft : k.after.memory = (left (execute line statement t)).memory :=
      congrArg Machine.memory hafter
    rwa [hbefore, ← hleft] at huses
  -- Without a statement, only answers and the loading of a file have to do with the memory.
  next hcarried =>
    have hsame : k.after.machine = k.before.machine → k.before.memory.Serves [] k.after.memory :=
      fun h => by
      rw [memory, memory, h]
      exact .nil
    cases k with
    | tick s => exact hsame (ticked_machine hcarried)
    | act s a =>
      cases a with
      | enter text => exact enter_serves s text
      | beginLoad => exact beginLoad_serves s
      | advance => exact hsame (machine_of_isAdvance rfl hcarried)
      | interrupt => exact hsame (interrupt_machine s)
      | command c => exact hsame (obey_machine s c)
      | resume => exact hsame ((sparesMachine_goingOn (a := .resume) rfl).ask? s)
      | step => exact hsame ((sparesMachine_goingOn (a := .step) rfl).ask? s)
      | exit => exact hsame (sparesMachine_exitRun.ask? s)
      | backtrace => exact hsame (sparesMachine_showCalls.ask? s)
      | setBreakpoint n => exact hsame ((sparesMachine_setBreakpoint n).ask? s)
      | clearBreakpoint n => exact hsame ((sparesMachine_clearBreakpoint n).ask? s)
      | endLoad => exact hsame rfl
      | reseed generator => exact .nil

end Moment

/-- All bytes are made zero when a file begins to be loaded and when a statement comes to `CLEAR`,
    and at no other time. -/
theorem Moment.wipe_mem_accesses (k : Moment γ) : .wipe ∈ k.accesses ↔ k.Wipes := by
  cases hcarried : k.carried? with
  | some carried =>
    obtain ⟨line, statement⟩ := carried
    have haccesses : k.accesses = statement.accesses line k.before.view k.before.machine := by
      unfold accesses
      rw [hcarried]
    rw [haccesses, statement.wipe_mem_accesses]
    constructor
    · rintro ⟨span, m, hcomes⟩
      exact .inr ⟨line, statement, span, m, carried?_eq_some.1 hcarried, hcomes⟩
    · rintro (⟨s, rfl⟩ | ⟨line', statement', span, m, hcarries, hcomes⟩)
      · cases hcarried
      · cases hcarried.symm.trans (carried?_eq_some.2 hcarries)
        exact ⟨span, m, hcomes⟩
  -- Answers read and write, but they never make all bytes zero.
  | none =>
    have hwipes : k.Wipes ↔ ∃ s, k = .act s .beginLoad := by
      refine ⟨fun h => h.resolve_right ?_, .inl⟩
      rintro ⟨line, statement, span, m, hcarries, -⟩
      exact not_carriesOut hcarried hcarries
    rw [hwipes]
    unfold accesses
    rw [hcarried]
    cases k with
    | tick s => simp
    | act s a =>
      cases a with
      | enter text => cases hpending : s.pending <;> simp [hpending, wipe_notMem_accessesOfAnswers]
      | _ => simp

/-! ### Sessions -/

namespace Engine

/-- What is done in some moments in a row. -/
theorem serves_path {s t : Engine γ} {ks : List (Moment γ)} (h : Path s ks t) :
    s.memory.Serves (ks.flatMap Moment.accesses) t.memory := by
  induction h with
  | nil => exact .nil
  | cons k _ ih => exact k.serves.append ih

/-- **Main result.**  In a session the memory is a store of bytes in which the last write counts.
    Each call that is made has the result that it should have after all that was done with the
    memory before it, and the bytes before each moment and at the end are those that were last
    written.  All bytes are made zero by `CLEAR` and by the loading of files only, and nothing but
    this and a write that succeeds changes the memory.  A `USR` makes its call once its arguments
    have values, and has the result of the call.  If the call fails the machine stays as the
    arguments left it. -/
theorem memory_is_last_written (generator : γ) (ops : List (Operation γ)) :
    let ks := (start generator).trail ops
    (∀ past arguments result future,
      ks.flatMap Moment.accesses = past ++ .call arguments result :: future →
        Answers past arguments result) ∧
    (∀ before k after, ks = before ++ k :: after →
      k.before.memory.Holds (before.flatMap Moment.accesses)) ∧
    ((start generator).run ops).memory.Holds (ks.flatMap Moment.accesses) ∧
    (∀ k ∈ ks, (.wipe ∈ k.accesses ↔ k.Wipes) ∧
      (k.after.memory ≠ k.before.memory →
        k.Wipes ∨ ∃ y v more, .call (280 :: y :: v :: more) (.ok v) ∈ k.accesses)) ∧
    ∀ (e : Expr) span es (m m' : Machine γ) past ns, e.call? = some (span, es) →
      m.memory.Holds past → evalAll es m = .ok ns m' →
        ∃ result, e.accesses m = accessesAll es m ++ [.call ns result] ∧
          Answers (past ++ accessesAll es m) ns result ∧
          (∀ n, result = .ok n → ∃ m'', e.eval m = .ok n m'') ∧
          ∀ cause, result = .error cause → e.eval m = .error ⟨cause, span⟩ m' := by
  intro ks
  have hpath := path_trail (start generator) ops
  have hstart : (start generator).memory.Holds [] := Memory.holds_empty
  refine ⟨fun past arguments result future h => ?_, fun before k after h => ?_, ?_,
    fun k hk => ?_, ?_⟩
  · have hserves := serves_path hpath
    rw [h] at hserves
    exact hserves.answers hstart
  · rw [show (start generator).trail ops = _ from h] at hpath
    exact (serves_path hpath.split.1).holds hstart
  · exact (serves_path hpath).holds hstart
  · refine ⟨k.wipe_mem_accesses, fun hchanged => ?_⟩
    obtain ⟨a, ha, rfl | ⟨y, v, more, rfl⟩⟩ := k.serves.changed hchanged
    · exact .inl (k.wipe_mem_accesses.1 ha)
    · exact .inr ⟨y, v, more, ha⟩
  · intro e span es m m' past ns h hm hvalues
    exact Expr.eval_called h hvalues hm

/-- A byte is written near the top of the memory by a line that fails, read, wiped, and read again.
    A value that is no byte is not written. -/
def wipedSession : List (Operation ChaCha) :=
  [.act (.enter "10 A=USR(280,32767+2,7)+1/0"), .act (.enter "20 CLEAR"), .act (.enter "RUN"),
    .poll 9, .act (.enter "IF USR(276,-32767)=7 THEN PRINT USR(280,9,256)"), .poll 9,
    .act (.enter "GOTO 20"), .poll 9, .act (.enter "PRINT USR(276,-32767)"), .poll 9]

/-- The calls of this session have the results that the write and the wipe before them give. -/
theorem memory_is_last_written_wipedSession :
    let ks := (start (ChaCha.ofSeed 1)).trail wipedSession
    let write := MemoryAccess.call [280, -32767, 7] (.ok 7)
    let refused := MemoryAccess.call [280, 9, 256] (.error (.usrValue 256))
    ks.flatMap Moment.accesses =
        [write, .call [276, -32767] (.ok 7), refused, .wipe, .call [276, -32767] (.ok 0)] ∧
      lastWritten [write] (-32767) = 7 ∧ Malformed [280, 9, 256] ∧
      (∃ before k after, ks = before ++ k :: after ∧
        k.before.memory.Holds (before.flatMap Moment.accesses) ∧
        k.after.memory ≠ k.before.memory ∧
        (k.Wipes ∨ ∃ y v more, .call (280 :: y :: v :: more) (.ok v) ∈ k.accesses)) ∧
      ∃ m, (Expr.usrAt ⟨0, 15⟩ (.int ⟨4, 7⟩ 276) (.int ⟨8, 14⟩ (-32767))).eval
        (start (ChaCha.ofSeed 1)).machine = .ok 0 m := by
  intro ks write refused
  obtain ⟨hcalls, hholds, -, hchanges, hvalues⟩ :=
    memory_is_last_written (ChaCha.ofSeed 1) wipedSession
  have hhistory : ks.flatMap Moment.accesses =
      [write, .call [276, -32767] (.ok 7), refused, .wipe, .call [276, -32767] (.ok 0)] := by
    decide +kernel
  have hchanged : ∃ k ∈ ks, k.after.memory ≠ k.before.memory := by decide +kernel
  refine ⟨hhistory, ?_, ?_, ?_, ?_⟩
  · have hanswers :=
      hcalls [write] [276, -32767] (.ok 7) [refused, .wipe, .call [276, -32767] (.ok 0)] hhistory
    exact (hanswers.read (-32767) [] 7 rfl rfl).1.symm
  · have hanswers := hcalls [write, .call [276, -32767] (.ok 7)] [280, 9, 256] _
      [.wipe, .call [276, -32767] (.ok 0)] hhistory
    exact hanswers.fails.1 ⟨_, rfl⟩
  · obtain ⟨k, hk, hne⟩ := hchanged
    obtain ⟨before, after, hks⟩ := List.append_of_mem hk
    exact ⟨before, k, after, hks, hholds before k after hks, hne, (hchanges k hk).2 hne⟩
  · obtain ⟨result, -, hanswers, hok, -⟩ :=
      hvalues (.usrAt ⟨0, 15⟩ (.int ⟨4, 7⟩ 276) (.int ⟨8, 14⟩ (-32767))) _ _
      (start (ChaCha.ofSeed 1)).machine _ [] _ rfl Memory.holds_empty rfl
    cases result with
    | error cause => exact absurd (hanswers.fails.1 ⟨cause, rfl⟩) (by simp [Malformed])
    | ok n =>
      obtain rfl : n = 0 := (hanswers.read (-32767) [] n rfl rfl).1
      exact hok 0 rfl

end Engine

end LineBasic
