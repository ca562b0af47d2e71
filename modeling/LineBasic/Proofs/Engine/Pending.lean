import LineBasic.Proofs.Engine.Account
import LineBasic.Proofs.Engine.Happened

namespace LineBasic

open Engine

/-!
# Pending questions

What an engine can rely on while values are being asked for.

* `Engine.Asking` -- no values of `RUN` are left, and the run of a program line that asks stands at
  that line;
* `asking_of_execute`, `asking_answer` -- statements that ask, and answers that are not all of them;
* `Engine.Reachable.asking` -- the main result, for all that operations lead to.
-/

variable {γ : Type}

namespace Engine

variable {s t : Engine γ}

/-- What holds while a question is pending. -/
structure Asking (s : Engine γ) : Prop where
  /-- Values are asked for only when none are left of those of `RUN`. -/
  queue : s.pending ≠ none → s.queue = []
  /-- They are asked for some variables. -/
  awaiting : ∀ q, s.pending = some q → q.awaiting ≠ []
  /-- The run of a program line that asks goes on behind that line. -/
  line : ∀ q n, s.pending = some q → q.line = some n → s.mode = .running ∧ s.cursor = n ∧
    s.branch = none

/-- Without a question there is nothing to be shown. -/
theorem asking_of_none (h : s.pending = none) : s.Asking :=
  ⟨fun hne => absurd h hne, fun q hq => (by simp [h] at hq), fun q n hq => (by simp [h] at hq)⟩

variable [RandomSource γ]

/-- A statement asks for values on behalf of the line at the cursor, or of none. -/
theorem asking_of_execute {line : Option Nat} {statement : Statement} {u : Unit}
    (hpending : s.pending = none)
    (hline : ∀ n, line = some n → s.mode = .running ∧ s.cursor = n ∧ s.branch = none)
    (h : execute line statement s = .ok u t) : t.Asking := by
  rcases execute_ok h with ⟨-, m, rfl⟩ | ⟨body, m, effect, k, -, -, rfl⟩
  · exact asking_of_none hpending
  cases effect with
  | ask xs =>
    rw [Effect.apply, ask_eq]
    by_cases hleft : xs.drop s.queue.length = []
    · exact asking_of_none (by simp [hleft, hpending])
    · refine ⟨fun _ => ?_, fun q hq => ?_, fun q n hq hn => ?_⟩
      · have hlength : s.queue.length < xs.length := by simpa [List.drop_eq_nil_iff] using hleft
        exact List.drop_eq_nil_iff.2 (Nat.le_of_lt hlength)
      · obtain rfl : (⟨_, line⟩ : Inquiry) = q := by simpa [hleft] using hq
        exact hleft
      · obtain rfl : (⟨_, line⟩ : Inquiry) = q := by simpa [hleft] using hq
        exact hline n hn
  | clear | halt => exact asking_of_none (stop_pending _)
  | restart warning =>
    refine asking_of_none ?_
    cases warning <;> simp [Effect.apply, rewind_eq, emit, hpending]
  | _ => exact asking_of_none hpending

/-- A direct statement that asks does so on behalf of no line, with no values left. -/
theorem asking_carryOut (hpending : s.pending = none) (d : DirectStatement) :
    (s.carryOut d).Asking := by
  unfold carryOut
  split
  next h => exact asking_of_execute hpending (by rintro n ⟨⟩) h
  next => exact asking_of_none (fail_pending _ _)

/-- A line that asks is the one at the cursor, and has taken all values. -/
theorem asking_advance (hs : s.Asking) : s.advance.2.Asking := by
  generalize hr : s.advance = r
  cases hr ▸ advance_cases s with
  | idle | waiting => exact hs
  | lost => exact asking_of_none (fail_pending _ _)
  | stopped line _ hpending =>
    rw [pauseAt_eq]
    exact asking_of_none hpending
  | executed line hopen =>
    obtain ⟨hmode, hpending, hget, -⟩ := hopen
    let b := { s with resume := false }.begun line
    have hb : b = { s with resume := false, transcript := b.transcript, branch := none } :=
      begun_eq _ line
    -- At its beginning the line asks for nothing, and the cursor is on it.
    have hbegun : ∀ {u : Unit} {t : Engine γ},
        execute (some line.number) line.statement b = .ok u t → t.Asking := by
      intro u t hok
      refine asking_of_execute (by rw [hb]; exact hpending) (fun n hn => ?_) hok
      obtain rfl := Option.some.inj hn
      rw [hb]
      exact ⟨hmode, (Listing.get?_number hget).symm, rfl⟩
    generalize hr : ({ s with resume := false } : Engine γ).executeLine line = r
    cases hr ▸ executeLine_cases _ line with
    | failed => exact asking_of_none (fail_pending _ _)
    | ended t hok | asked t hok =>
      rw [timed_eq]
      have ht := hbegun hok
      exact ⟨ht.queue, ht.awaiting, ht.line⟩
    | finished t _ _ hnone =>
      exact asking_of_none (finishLine_pending (by rw [timed_pending]; exact hnone))

/-- Answers that are not all of those that are asked for leave the question pending. -/
theorem asking_answer (hs : s.Asking) {q : Inquiry} (hq : s.pending = some q) (text : String) :
    (s.answer q text).Asking := by
  obtain ⟨reading, -, -, happly⟩ := answer_uniform s.machine q text
  rw [happly s rfl]
  cases reading with
  | bad => exact asking_of_none (fail_pending _ _)
  | taken machine awaiting excess =>
    have hqueue : s.queue = [] := hs.queue (by simp [hq])
    obtain ⟨transcript, htaken⟩ := Reading.apply_taken q s machine awaiting excess
    rw [htaken]
    split
    next hleft =>
      refine ⟨fun _ => hqueue, fun q' hq' => ?_, fun q' n hq' hn => ?_⟩
      · obtain rfl := Option.some.inj hq'
        exact hleft
      · obtain rfl := Option.some.inj hq'
        exact hs.line q n hq hn
    next =>
      split
      · exact asking_of_none (finishLine_pending rfl)
      · exact asking_of_none rfl

end Engine

/-! ### Histories -/

variable [RandomSource γ]

/-- **One moment.**  Whatever happens, no values are left while a question is pending. -/
theorem asking_after {m : Moment γ} (hs : m.before.Asking) : m.after.Asking := by
  have hhappened := m.happened
  generalize m.after = t at hhappened
  cases hhappened with
  | aside | marked | unmarked | unmarkedAll => exact ⟨hs.queue, hs.awaiting, hs.line⟩
  | @carriedOut s d _ hpending => exact asking_carryOut (s := { s with direct := none }) hpending d
  | advanced => exact asking_advance hs
  | @answered s text q hq =>
    exact asking_answer (s := s.counted) ⟨hs.queue, hs.awaiting, hs.line⟩ hq text
  | noticed hpending | stored hpending | deleted hpending | putBy hpending =>
    exact asking_of_none hpending
  | misread | interrupted => exact asking_of_none (fail_pending _ _)
  | released _ ht =>
    obtain ⟨hmode, stepping, rfl⟩ := ht
    refine ⟨hs.queue, hs.awaiting, fun q n hq hn => ?_⟩
    -- What is asked for while a run is suspended is asked for by a direct statement.
    have hrunning := (hs.line q n hq hn).1
    simp [hmode] at hrunning
  | gaveUp | beganLoad => exact asking_of_none (stop_pending _)
  | @endedLoad s =>
    refine ⟨hs.queue, hs.awaiting, fun q n hq hn => ?_⟩
    obtain ⟨hmode, hcursor, hbranch⟩ := hs.line q n hq hn
    have hmode : s.mode = .running := hmode
    exact ⟨by simp [Engine.endLoad, hmode], hcursor, hbranch⟩

/-- **Main result.**  In every engine that operations lead to, no values of `RUN` are left while
    values are asked for, and the run of a program line that asks stands at that line and goes on
    behind it. -/
theorem Engine.Reachable.asking {s : Engine γ} (h : s.Reachable) : s.Asking :=
  h.induction (fun _ => asking_of_none rfl) fun _ => asking_after

end LineBasic
