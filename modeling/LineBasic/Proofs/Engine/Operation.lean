import LineBasic.Engine.Debug

namespace LineBasic

/-!
# Operations on engines

All that can be done with an engine from outside, and what sequences of operations come to.

* `Act`, `Operation` -- what can be asked of an engine: one thing at once, or to work within a
  budget;
* `Engine.run`, `Engine.Reachable` -- what sequences of operations lead to;
* `Moment`, `Engine.trail` -- a sequence of operations seen closely: the work within a budget is
  made up of ticks, and each moment of the sequence is one tick or one act;
* `Engine.executed?`, `Moment.executed?` -- the line whose statement is executed in a moment;
* `Path.preserves`, `Reachable.induction` -- what every moment preserves holds after all of them.
-/

variable {γ : Type} [RandomSource γ]

/-- Something that is asked of an engine at once.  What cannot be refused is asked as a command. -/
inductive Act (γ : Type) where
  | enter (text : String)
  | advance
  | interrupt
  | command (c : Command)
  /-- Go on with the suspended run. -/
  | resume
  /-- Execute one line of the suspended run. -/
  | step
  /-- Give up the suspended run. -/
  | exit
  | backtrace
  | setBreakpoint (n : Nat)
  | clearBreakpoint (n : Nat)
  | beginLoad
  | endLoad
  | reseed (generator : γ)

/-- Something that is done with an engine. -/
inductive Operation (γ : Type) where
  /-- Lets the engine work, at most so many times. -/
  | poll (budget : Nat)
  | act (a : Act γ)

/-- What an operation answers. -/
inductive Reply where
  | done
  | taken (more : Bool)
  | progress (p : Engine.Progress)
  | refused (cause : Cause)
  | loaded (clean : Bool)
  | event (e : Engine.Event)
  deriving DecidableEq, Repr

namespace Engine

/-- The answer to a request, and the engine after it. -/
def ask? (s : Engine γ) (request : Request γ Unit) : Reply × Engine γ :=
  match request s with
  | .ok _ s => (.done, s)
  | .error cause s => (.refused cause, s)

omit [RandomSource γ] in
/-- A request that is not refused is accepted. -/
theorem ask?_done {s : Engine γ} {request : Request γ Unit} (h : (s.ask? request).1 = .done) :
    request s = .ok () (s.ask? request).2 := by
  unfold ask? at h ⊢
  cases hr : request s with
  | ok u t => rfl
  | error cause t => simp [hr] at h

/-- The answer to an act, and the engine after it. -/
def respond (s : Engine γ) : Act γ → Reply × Engine γ
  | .enter text => (.taken (s.enter text).1, (s.enter text).2)
  | .advance => (.progress s.advance.1, s.advance.2)
  | .interrupt => (.done, s.interrupt)
  | .command c => (.done, s.obey c)
  | .resume => s.ask? resumeRun
  | .step => s.ask? stepRun
  | .exit => s.ask? exitRun
  | .backtrace => s.ask? showCalls
  | .setBreakpoint n => s.ask? (setBreakpoint n)
  | .clearBreakpoint n => s.ask? (clearBreakpoint n)
  | .beginLoad => (.done, s.beginLoad)
  | .endLoad => (.loaded s.endLoad.1, s.endLoad.2)
  | .reseed generator => (.done, s.reseed generator)

/-- The answer to an operation, and the engine after it. -/
def operate (s : Engine γ) : Operation γ → Reply × Engine γ
  | .poll budget => (.event (poll budget s).1, (poll budget s).2)
  | .act a => s.respond a

/-- The engine after some operations. -/
def run (s : Engine γ) : List (Operation γ) → Engine γ
  | [] => s
  | op :: ops => (s.operate op).2.run ops

/-- The engines that operations lead to, from one that has just been started. -/
def Reachable (s : Engine γ) : Prop := ∃ generator ops, s = (start generator).run ops

@[simp] theorem run_nil (s : Engine γ) : s.run [] = s := rfl

@[simp] theorem run_cons (s : Engine γ) (op : Operation γ) (ops : List (Operation γ)) :
    s.run (op :: ops) = (s.operate op).2.run ops := rfl

/-- Operations are done one part after the other. -/
theorem run_append (s : Engine γ) (ops ops' : List (Operation γ)) :
    s.run (ops ++ ops') = (s.run ops).run ops' := by
  induction ops generalizing s with
  | nil => rfl
  | cons op ops ih => exact ih _

/-! ### Executed lines -/

/-- The line whose statement `advance` executes. -/
def executed? (s : Engine γ) : Option Line :=
  if s.mode = .running ∧ s.pending = none then
    (s.listing.get? s.cursor).filter fun line => (s.arrive line).1.isNone
  else none

/-- Whether a tick is the program's turn. -/
def isProgramTurn (s : Engine γ) : Bool :=
  s.errors = [] && s.pending.isNone && s.direct.isNone && s.mode = .running

/-- The engine after a tick. -/
def ticked (s : Engine γ) : Engine γ :=
  match s.tick with
  | .inl (_, s) => s
  | .inr s => s

end Engine

/-! ### Moments -/

/-- A tick or an act, with the engine before it. -/
inductive Moment (γ : Type) where
  | tick (s : Engine γ)
  | act (s : Engine γ) (a : Act γ)

namespace Moment

/-- The engine before a moment. -/
def before : Moment γ → Engine γ
  | tick s | act s _ => s

/-- The engine after a moment. -/
def after : Moment γ → Engine γ
  | tick s => s.ticked
  | act s a => (s.respond a).2

/-- The line whose statement is executed in a moment. -/
def executed? : Moment γ → Option Line
  | tick s => if s.isProgramTurn then s.executed? else none
  | act s .advance => s.executed?
  | act _ _ => none

end Moment

namespace Engine

/-- The ticks that a budget pays for, up to the first event. -/
def ticks : Nat → Engine γ → List (Moment γ)
  | 0, _ => []
  | budget + 1, s =>
    .tick s ::
      match s.tick with
      | .inl _ => []
      | .inr s => ticks budget s

/-- The moments of an operation. -/
def moments (s : Engine γ) : Operation γ → List (Moment γ)
  | .poll budget => ticks budget s
  | .act a => [.act s a]

/-- The moments of some operations. -/
def trail (s : Engine γ) : List (Operation γ) → List (Moment γ)
  | [] => []
  | op :: ops => s.moments op ++ (s.operate op).2.trail ops

end Engine

/-- Moments that follow one another, from one engine to another. -/
inductive Path : Engine γ → List (Moment γ) → Engine γ → Prop
  | nil (s : Engine γ) : Path s [] s
  | cons (m : Moment γ) {ms : List (Moment γ)} {t : Engine γ} :
      Path m.after ms t → Path m.before (m :: ms) t

namespace Path

variable {s t u : Engine γ} {ms ms' : List (Moment γ)}

/-- Two paths, of which the second begins where the first ends, make up one. -/
theorem append (h : Path s ms t) (h' : Path t ms' u) : Path s (ms ++ ms') u := by
  induction h with
  | nil => exact h'
  | cons m _ ih => exact .cons m (ih h')

/-- A path with a moment in it leads to that moment and goes on from it. -/
theorem split {m : Moment γ} (h : Path s (ms ++ m :: ms') t) :
    Path s ms m.before ∧ Path m.after ms' t := by
  generalize hms : ms ++ m :: ms' = all at h
  induction h generalizing ms with
  | nil => simp at hms
  | cons k hpath ih =>
    cases ms with
    | nil =>
      obtain ⟨rfl, rfl⟩ := List.cons.inj hms
      exact ⟨.nil _, hpath⟩
    | cons k' ms =>
      obtain ⟨rfl, htail⟩ := List.cons.inj hms
      obtain ⟨h₁, h₂⟩ := ih htail
      exact ⟨.cons _ h₁, h₂⟩

/-- **Invariants of paths.**  What each moment preserves, the moments before it being known, holds
    at the end of a path. -/
theorem history_induction {I : List (Moment γ) → Engine γ → Prop} (h : Path s ms t) (h₀ : I [] s)
    (hstep : ∀ past m, I past m.before → I (past ++ [m]) m.after) : I ms t := by
  suffices ∀ past, I past s → I (past ++ ms) t by simpa using this [] h₀
  clear h₀
  -- The induction goes forward from any past, because the moments before a path are not those in
  -- it.
  induction h with
  | nil => simp
  | cons m _ ih =>
    intro past hpast
    simpa using ih (past ++ [m]) (hstep past m hpast)

/-- What each moment preserves holds at the end of a path. -/
theorem preserves {I : Engine γ → Prop} (h : Path s ms t) (h₀ : I s)
    (hstep : ∀ m ∈ ms, I m.before → I m.after) : I t := by
  induction h with
  | nil => exact h₀
  | cons m _ ih => exact ih (hstep m (by simp) h₀) fun k hk => hstep k (by simp [hk])

end Path

namespace Engine

/-- The ticks within a budget lead to where the work leads. -/
theorem path_ticks (budget : Nat) (s : Engine γ) : Path s (ticks budget s) (poll budget s).2 := by
  induction budget generalizing s with
  | zero => exact .nil s
  | succ budget ih =>
    refine .cons (.tick s) ?_
    show Path s.ticked _ _
    unfold ticked
    cases ht : s.tick with
    | inl result =>
      simp only [poll, ht]
      exact .nil _
    | inr s' =>
      simp only [poll, ht]
      exact ih s'

/-- The moments of an operation lead to where the operation leads. -/
theorem path_moments (s : Engine γ) (op : Operation γ) :
    Path s (s.moments op) (s.operate op).2 := by
  cases op with
  | poll budget => exact path_ticks budget s
  | act a => exact .cons (.act s a) (.nil _)

/-- The moments of some operations lead from the engine before them to the engine after them. -/
theorem path_trail (s : Engine γ) (ops : List (Operation γ)) :
    Path s (s.trail ops) (s.run ops) := by
  induction ops generalizing s with
  | nil => exact .nil s
  | cons op ops ih => exact (path_moments s op).append (ih _)

/-- The moments of operations, one part after the other. -/
theorem trail_append (s : Engine γ) (ops ops' : List (Operation γ)) :
    s.trail (ops ++ ops') = s.trail ops ++ (s.run ops).trail ops' := by
  induction ops generalizing s with
  | nil => rfl
  | cons op ops ih => simp only [List.cons_append, trail, run, ih, List.append_assoc]

/-- What holds of an engine that has just been started, and what every moment preserves, holds of
    every engine that operations lead to. -/
theorem Reachable.induction {I : Engine γ → Prop} {s : Engine γ} (h : s.Reachable)
    (h₀ : ∀ generator, I (start generator)) (hstep : ∀ m : Moment γ, I m.before → I m.after) :
    I s := by
  obtain ⟨generator, ops, rfl⟩ := h
  exact (path_trail _ ops).preserves (h₀ generator) fun m _ => hstep m

end Engine

end LineBasic
