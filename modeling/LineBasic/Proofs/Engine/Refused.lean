import LineBasic.Proofs.Engine.Foresight
import LineBasic.Proofs.Engine.Idle
import LineBasic.Proofs.Terminal.File

namespace LineBasic

open Engine

/-!
# What is refused

A text that cannot be read, a command that is refused and a line that cannot be deleted leave an
engine as it was, but for one error to be collected.

* `Engine.Rejected` -- an engine after something has been refused;
* `Engine.rejected_fail`, `Engine.rejected_accept_delete` -- a failure and a deletion in vain;
* `Command.request?`, `Engine.Refusal`, `Engine.request_error_iff` -- the commands that may be
  refused, and what they are refused for;
* `Engine.Reachable.isLoading_of_prompt` -- at the prompt no file is being loaded;
* `Engine.Reachable.rejects` -- the main result, for all reachable engines, texts and commands.
-/

variable {γ : Type}

namespace Engine

variable {s t : Engine γ} {d : Diagnostic}

/-- The engine `t` is the engine `s` with one more error, and perhaps with more traces. -/
def Rejected (d : Diagnostic) (s t : Engine γ) : Prop :=
  ∃ traces : List Emission, (∀ e ∈ traces, ∃ text, e = .trace text) ∧
    t = { s with errors := s.errors ++ [d], transcript := ⟨traces ++ s.transcript.newestFirst⟩ }

/-- A report is one more error and nothing else. -/
theorem rejected_report (s : Engine γ) (d : Diagnostic) : Rejected d s (s.report d) :=
  ⟨[], fun _ he => absurd he List.not_mem_nil, rfl⟩

/-- A trace before a refusal is not much of a change. -/
theorem Rejected.of_traced (text : String) (h : Rejected d (s.traced text) t) : Rejected d s t := by
  obtain ⟨traces, htraces, rfl⟩ := h
  unfold traced
  split
  · refine ⟨traces ++ [.trace ("[trace] " ++ text ++ "\n")], fun e he => ?_,
      by simp [emit, Transcript.emit]⟩
    rcases List.mem_append.1 he with he | he
    · exact htraces e he
    · exact ⟨_, List.mem_singleton.1 he⟩
  · exact ⟨traces, htraces, rfl⟩

/-! ### Failures and deletions -/

/-- Where there is no run to end, no load to spoil and no question to give up, a failure is a mere
    report. -/
theorem fail_eq_report (hmode : s.mode ≠ .running) (hloading : s.isLoading = false)
    (hpending : s.pending = none) (d : Diagnostic) : s.fail d = s.report d := by
  have hfile : s.fileLine = none := by simpa [isLoading] using hloading
  have hplaced : s.placed d = d := by rw [placed, hfile]
  have hnoted : s.noted d = s.report d := by rw [noted, hplaced, ← hpending]; rfl
  rw [fail_eq, hnoted, stopRun, if_neg (show (s.report d).mode ≠ .running from hmode), spoilLoad,
    if_neg (show ¬ (s.report d).isLoading from Bool.eq_false_iff.1 hloading)]

/-- A failure without a run, a load or a question to be given up is one more error. -/
theorem rejected_fail (hmode : s.mode ≠ .running) (hloading : s.isLoading = false)
    (hpending : s.pending = none) (d : Diagnostic) : Rejected d s (s.fail d) := by
  rw [fail_eq_report hmode hloading hpending]
  exact rejected_report s d

/-- While a run is suspended no line is deleted. -/
theorem delete_of_paused (hmode : s.mode = .paused) (n : Nat) :
    s.delete n = s.report Cause.deleteWhileDebugging.diagnostic := by
  rw [delete, if_pos hmode]

/-- A line that is not there cannot be deleted, and the report names it. -/
theorem delete_of_not_contains {n : Nat} (hmode : s.mode ≠ .paused) (hloading : s.isLoading = false)
    (hn : s.listing.contains n = false) :
    s.delete n = s.fail ((Cause.lineNotInProgram n).diagnostic.atLine (some n)) := by
  rw [delete, if_neg hmode, if_neg (by simp [hn]), if_neg (by simp [hloading])]

/-- What an entry for a deletion does is what the deletion does, after a trace. -/
theorem rejected_accept_delete {n : Nat} {source : String}
    (h : ∀ transcript, Rejected d { s with transcript }
      (({ s with transcript } : Engine γ).delete n)) :
    Rejected d s (s.accept source (.delete n)) := by
  refine Rejected.of_traced ("delete " ++ Text.ofNat n) ?_
  show Rejected d _ ((s.traced ("delete " ++ Text.ofNat n)).delete n)
  rw [traced_eq]
  exact h _

end Engine

/-! ### Commands -/

/-- The name of a command that is for suspended runs only. -/
def Command.debugName? : Command → Option String
  | .resume => some "continue"
  | .step => some "step"
  | .exit => some "exit"
  | .backtrace => some "backtrace"
  | _ => none

variable [RandomSource γ]

/-- The request that a command makes, if it is one that may be refused. -/
def Command.request? : Command → Option (Request γ Unit)
  | .setBreakpoint n => some (Engine.setBreakpoint n)
  | .clearBreakpoint n => some (Engine.clearBreakpoint n)
  | .resume => some resumeRun
  | .step => some stepRun
  | .exit => some exitRun
  | .backtrace => some showCalls
  | _ => none

namespace Engine

variable {s t : Engine γ} {c : Command} {cause : Cause} {request : Request γ Unit} {text : String}

/-- What a command is refused for. -/
inductive Refusal (s : Engine γ) : Command → Cause → Prop where
  /-- A breakpoint is to be set on a line that there is not. -/
  | missing {n : Nat} (hn : ¬ s.listing.contains n) : Refusal s (.setBreakpoint n) (.noSuchLine n)
  /-- A breakpoint is to be set that is there. -/
  | present {n : Nat} (hn : s.listing.contains n) (hset : n ∈ s.breakpoints.lines) :
      Refusal s (.setBreakpoint n) (.breakpointExists n)
  /-- A breakpoint is to be removed that is not there. -/
  | absent {n : Nat} (hset : n ∉ s.breakpoints.lines) :
      Refusal s (.clearBreakpoint n) (.noBreakpoint n)
  /-- No run is suspended. -/
  | idle {c : Command} {name : String} (hname : c.debugName? = some name)
      (hmode : s.mode ≠ .paused) :
      Refusal s c (.notDebugging name)
  /-- The line at the cursor is hopeless, as can be foreseen without calling a function. -/
  | hopeless {line : Line} {body : Statement} {cause : Cause} (hmode : s.mode = .paused)
      (hline : s.listing.get? s.cursor = some line)
      (hplain : ∀ e ∈ line.statement.conditions s.machine, ¬ e.Calls)
      (hcomes : line.statement.comesTo? s.machine = some (body, s.machine))
      (hhopeless : Hopeless s body cause) :
      Refusal s .step cause

/-- A command that may be refused does what its request comes to. -/
theorem obey_of_request? (h : c.request? = some request) : s.obey c = s.perform request := by
  cases c <;> cases h <;> rfl

/-- A breakpoint is refused where there is no line or already one, and nothing is changed. -/
theorem refusal_setBreakpoint_iff {n : Nat} :
    setBreakpoint n s = .error cause t ↔ t = s ∧ Refusal s (.setBreakpoint n) cause := by
  have herror : setBreakpoint n s = .error cause t ↔ t = s ∧
      s.breakpoints.set n s.listing = .error cause := by
    unfold setBreakpoint
    cases s.breakpoints.set n s.listing <;> simp [eq_comm, and_comm]
  rw [herror, Breakpoints.set_error_iff]
  refine and_congr_right fun _ => ⟨?_, ?_⟩
  · rintro (⟨hn, rfl⟩ | ⟨hn, hset, rfl⟩)
    · exact .missing hn
    · exact .present hn hset
  · rintro (hn | ⟨hn, hset⟩ | _ | ⟨hname, -⟩ | _)
    · exact .inl ⟨hn, rfl⟩
    · exact .inr ⟨hn, hset, rfl⟩
    · cases hname

/-- The removal of a breakpoint is refused where there is none, and nothing is changed. -/
theorem refusal_clearBreakpoint_iff {n : Nat} :
    clearBreakpoint n s = .error cause t ↔ t = s ∧ Refusal s (.clearBreakpoint n) cause := by
  have herror : clearBreakpoint n s = .error cause t ↔ t = s ∧
      s.breakpoints.clear n = .error cause := by
    unfold clearBreakpoint
    cases s.breakpoints.clear n <;> simp [eq_comm, and_comm]
  rw [herror, Breakpoints.clear_error_iff]
  refine and_congr_right fun _ => ⟨?_, ?_⟩
  · rintro ⟨hset, rfl⟩
    exact .absent hset
  · rintro (_ | _ | hset | ⟨hname, -⟩ | _)
    · exact ⟨hset, rfl⟩
    · cases hname

/-- A single step is refused without a suspended run, or for what is foreseen of its line. -/
theorem refusal_step_iff : stepRun s = .error cause t ↔ t = s ∧ Refusal s .step cause := by
  rw [stepRun_error_iff]
  constructor
  · rintro (⟨hmode, rfl, rfl⟩ | ⟨hmode, line, hline, hcheck⟩)
    · exact ⟨rfl, .idle rfl hmode⟩
    · obtain ⟨rfl, hplain, body, hcomes, hhopeless⟩ := checkStep_error_iff.1 hcheck
      exact ⟨rfl, .hopeless hmode hline hplain hcomes hhopeless⟩
  · rintro ⟨rfl, _ | _ | _ | ⟨hname, hmode⟩ | ⟨hmode, hline, hplain, hcomes, hhopeless⟩⟩
    · cases hname
      exact .inl ⟨hmode, rfl, rfl⟩
    · exact .inr ⟨hmode, _, hline, checkStep_error_iff.2 ⟨rfl, hplain, _, hcomes, hhopeless⟩⟩

/-- Requests that are for suspended runs only, and are not refused for anything else. -/
theorem refusal_debug_iff {name : String} {u : Engine γ} (hname : c.debugName? = some name)
    (hstep : c ≠ .step)
    (heq : request s = if s.mode = .paused then .ok () u else .error (.notDebugging name) s) :
    request s = .error cause t ↔ t = s ∧ Refusal s c cause := by
  rw [heq]
  constructor
  · intro h
    split at h <;> cases h
    exact ⟨rfl, .idle hname ‹_›⟩
  · rintro ⟨rfl, _ | _ | _ | ⟨hname', hmode⟩ | _⟩
    · cases hname
    · cases hname
    · cases hname
    · cases hname.symm.trans hname'
      rw [if_neg hmode]
    · exact absurd rfl hstep

/-- **What commands are refused for.**  A command that may be refused is refused if there is one of
    the reasons for it, and then its request has changed nothing. -/
theorem request_error_iff (h : c.request? = some request) :
    request s = .error cause t ↔ t = s ∧ Refusal s c cause := by
  cases c with
  | setBreakpoint n =>
    cases h
    exact refusal_setBreakpoint_iff
  | clearBreakpoint n =>
    cases h
    exact refusal_clearBreakpoint_iff
  | step =>
    cases h
    exact refusal_step_iff
  | resume =>
    cases h
    exact refusal_debug_iff rfl nofun (resumeRun_eq s)
  | exit =>
    cases h
    exact refusal_debug_iff rfl nofun (exitRun_eq s)
  | backtrace =>
    cases h
    exact refusal_debug_iff rfl nofun (showCalls_eq s)
  | _ => cases h

/-- Only commands that may be refused are. -/
theorem Refusal.exists_request (h : Refusal s c cause) :
    ∃ request : Request γ Unit, c.request? = some request := by
  cases h with
  | idle hname =>
    unfold Command.debugName? at hname
    split at hname <;> first | exact ⟨_, rfl⟩ | cases hname
  | _ => exact ⟨_, rfl⟩

/-- A command that is refused makes one error and changes nothing else. -/
theorem Refusal.rejected (h : Refusal s c cause) : Rejected cause.diagnostic s (s.obey c) := by
  obtain ⟨request, hrequest⟩ := h.exists_request
  rw [obey_of_request? hrequest, perform_error ((request_error_iff hrequest).2 ⟨rfl, h⟩)]
  exact rejected_report s _

/-! ### The prompt -/

omit [RandomSource γ] in
/-- A shift to the prompt is one in which no file is being loaded, or has been. -/
theorem Shift.isLoading_of_prompt (h : Shift s t) (hs : s.mode = .prompt → s.isLoading = false)
    (hmode : t.mode = .prompt) : t.isLoading = false := by
  cases h with
  | count => simpa [isLoading] using hs hmode
  | stop => simpa using idleMode_eq_prompt.1 (stop_mode s ▸ hmode)
  | wipe => simpa using idleMode_eq_prompt.1 (stop_mode s.wipe ▸ hmode)
  | beginLoad =>
    have hstop : s.beginLoad = ({ s.wipe with direct := none, fileLine := some 0 } :
        Engine γ).stop := rfl
    rw [hstop, stop_mode] at hmode
    simpa [hstop] using idleMode_eq_prompt.1 hmode
  | endLoad => rfl
  | restart =>
    rw [rewind_eq] at hmode ⊢
    exact hs hmode
  | launch | pause | spoil => cases hmode
  | _ => exact hs hmode

/-- At the prompt no file is being loaded. -/
theorem Reachable.isLoading_of_prompt (h : s.Reachable) (hmode : s.mode = .prompt) :
    s.isLoading = false := by
  refine h.induction (I := fun s => s.mode = .prompt → s.isLoading = false)
    (fun _ _ => rfl) ?_ hmode
  intro m hm
  -- A released run is no longer at the prompt, and a breakpoint changes neither.
  rcases moment_cases m with hshifts | hreleases | ⟨n, hmarks⟩
  · exact hshifts.preserves hm fun _ _ hs hshift => hshift.isLoading_of_prompt hs
  · obtain ⟨-, stepping, hafter⟩ := hreleases.releases
    rw [hafter]
    exact nofun
  · obtain ⟨n, b, -, hafter⟩ := hmarks.marks
    rw [hafter]
    exact hm

/-! ### Entries -/

omit [RandomSource γ] in
/-- Without a load there are no lines of a file to count. -/
theorem counted_eq_self (hloading : s.isLoading = false) : s.counted = s := by
  have hfile : s.fileLine = none := by simpa [isLoading] using hloading
  rw [counted, hfile, Option.map_none, ← hfile]

/-- A text that cannot be read fails with its fault. -/
theorem enter_of_fault (hpending : s.pending = none) (hfault : Entry.fault? text = some d) :
    (s.enter text).2 = s.counted.fail d := by
  rw [enter_of_pending_none hpending, allSpace_trimmed, Entry.ofText_trimmed]
  unfold Entry.fault? at hfault
  split at hfault
  next => cases hfault
  next hspace =>
    rw [if_neg hspace]
    cases hentry : Entry.ofText text with
    | ok entry => simp [hentry] at hfault
    | error d' =>
      rw [hentry] at hfault
      cases hfault
      rfl

/-- A text that can be read is accepted as the entry that it is. -/
theorem enter_of_entry {entry : Entry} (hpending : s.pending = none) (hmode : s.mode ≠ .loadFailed)
    (hentry : Entry.ofText text = .ok entry) :
    (s.enter text).2 = s.counted.accept (trimmed text) entry := by
  have hspace : ¬ Text.allSpace text.toList := by
    intro hspace
    have hnone := Entry.ofText_of_allSpace hspace
    rw [hentry] at hnone
    cases hnone
  rw [enter_of_pending_none hpending, allSpace_trimmed, Entry.ofText_trimmed, if_neg hspace, hentry]
  exact if_neg hmode

/-- **Main result.**  What is refused changes nothing but the errors to be collected, which are one
    more.  That holds of a text that cannot be read, at the prompt or where a run is suspended; of a
    command that may be refused, whose reasons are these; and of a line number on its own, where a
    run is suspended, or at the prompt if there is no such line. -/
theorem Reachable.rejects (h : s.Reachable) :
    (∀ text d, s.mode = .prompt ∨ s.mode = .paused → s.isLoading = false → s.pending = none →
      Entry.fault? text = some d → Rejected d s (s.enter text).2) ∧
    (∀ c (request : Request γ Unit) cause t, c.request? = some request →
      (request s = .error cause t ↔ t = s ∧ Refusal s c cause)) ∧
    (∀ c cause, Refusal s c cause → Rejected cause.diagnostic s (s.obey c)) ∧
    (∀ text n, s.mode = .paused → s.pending = none → Entry.ofText text = .ok (.delete n) →
      Rejected Cause.deleteWhileDebugging.diagnostic s.counted (s.enter text).2) ∧
    ∀ text n, s.mode = .prompt → s.pending = none → Entry.ofText text = .ok (.delete n) →
    ¬ s.listing.contains n →
      Rejected ((Cause.lineNotInProgram n).diagnostic.atLine (some n)) s (s.enter text).2 := by
  refine ⟨fun text d hmode hloading hpending hfault => ?_, fun c request cause t =>
    request_error_iff, fun c cause => Refusal.rejected, fun text n hmode hpending hentry => ?_,
    fun text n hmode hpending hentry hn => ?_⟩
  · rw [enter_of_fault hpending hfault, counted_eq_self hloading]
    exact rejected_fail (by rcases hmode with h | h <;> simp [h]) hloading hpending d
  · rw [enter_of_entry hpending (by simp [hmode]) hentry]
    refine rejected_accept_delete fun transcript => ?_
    rw [delete_of_paused (by exact hmode)]
    exact rejected_report _ _
  · have hloading := h.isLoading_of_prompt hmode
    rw [enter_of_entry hpending (by simp [hmode]) hentry, counted_eq_self hloading]
    refine rejected_accept_delete fun transcript => ?_
    rw [delete_of_not_contains (by simp [hmode]) (by exact hloading) (by simpa using hn)]
    exact rejected_fail (by simp [hmode]) (by exact hloading) (by exact hpending) _

/-- With a run suspended at a return without a call, neither a single step nor a deletion comes to
    anything. -/
theorem rejects_nestedReturn :
    let s := (start (ChaCha.ofSeed 1)).run nestedReturn
    s.mode = .paused ∧ Rejected Cause.emptyCallStack.diagnostic s (s.obey .step) ∧
      Rejected Cause.deleteWhileDebugging.diagnostic s.counted (s.enter " 10 ").2 := by
  intro s
  have hmode : s.mode = .paused := by decide +kernel
  have hpending : s.pending = none := by decide +kernel
  have hentry : Entry.ofText " 10 " = .ok (.delete 10) := by decide +kernel
  have hstep : (match stepRun s with
      | .error cause _ => cause = .emptyCallStack
      | .ok .. => false : Bool) := by
    decide +kernel
  have hreachable : s.Reachable := ⟨ChaCha.ofSeed 1, nestedReturn, rfl⟩
  obtain ⟨-, hrequests, hcommands, hdeletions, -⟩ := hreachable.rejects
  refine ⟨hmode, hcommands _ _ ?_, hdeletions " 10 " 10 hmode hpending hentry⟩
  cases hrefused : stepRun s with
  | ok => simp [hrefused] at hstep
  | error cause t =>
    obtain rfl : cause = .emptyCallStack := by simpa [hrefused] using hstep
    exact ((hrequests .step stepRun _ _ rfl).1 hrefused).2

end Engine

end LineBasic
