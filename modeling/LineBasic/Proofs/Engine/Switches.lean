import LineBasic.Proofs.Engine.Muted
import LineBasic.Random.ChaCha
import Mathlib.Data.List.Forall2

namespace LineBasic

open Engine

/-!
# Traces and times make no difference

Whether traces and times are switched on, and when, changes nothing about what is done with an
engine but what is traced, and what is said when one of the two switches is shown.

* `Engine.heard` -- what has been written but for traces;
* `Engine.SameButSwitches` -- engines that differ in the two switches and in what has been written;
* `Exchange`, `Engine.exchanges` -- the operations of a session, each with the engine before it;
* `Exchange.Alike` -- the same operation, answered in the same way, with the same heard of it;
* `exchange_alike` -- one operation on engines that differ in the switches only;
* `switches_make_no_difference` -- the main result, for whole sessions;
* `shown_switch_differs` -- what is said of a switch that is shown does depend on it.
-/

variable {γ : Type}

namespace Engine

/-- What has been written but for traces. -/
def heard (s : Engine γ) : List Emission := s.transcript.emissions.filter (!·.isTrace)

/-- Whether two engines differ in nothing but the switches for traces and times and in what has been
    written. -/
def SameButSwitches (s t : Engine γ) : Prop :=
  ∃ logging timing transcript,
    t = { s with options := { s.options with logging, timing }, transcript }

/-- What is written when a switch is shown. -/
def switchLine (s : Engine γ) (switch : Switch) : Emission :=
  .output ("Option: " ++ switch.name ++ " is " ++
    (if s.switched switch then "true" else "false") ++ ".\n")

/-- An engine that traces nothing and has written nothing. -/
def silent (s : Engine γ) : Engine γ := { s.muted [] with transcript := .empty }

/-- Two engines differ in the switches only if they are the same with the switches off. -/
theorem sameButSwitches_iff {s t : Engine γ} : s.SameButSwitches t ↔ s.silent = t.silent := by
  constructor
  · rintro ⟨logging, timing, transcript, rfl⟩
    rfl
  · intro h
    refine ⟨t.options.logging, t.options.timing, t.transcript, ?_⟩
    calc t
        = { t.silent with
            options :=
              { t.silent.options with logging := t.options.logging, timing := t.options.timing }
            transcript := t.transcript } := rfl
      _ = { s.silent with
            options :=
              { s.silent.options with logging := t.options.logging, timing := t.options.timing }
            transcript := t.transcript } := by rw [h]
      _ = _ := rfl

/-- What is heard of an engine is what a muted engine has written. -/
theorem heard_eq (s : Engine γ) : s.heard = (s.muted []).transcript.emissions := by
  simp [heard, muted, Transcript.emissions]

/-- What is written is heard, unless it is a trace. -/
theorem heard_emit (s : Engine γ) {e : Emission} (he : e.isTrace = false) :
    (s.emit e).heard = s.heard ++ [e] := by
  simp [heard, emit, he]

variable [RandomSource γ]

/-- What neither turns nor shows a switch does the same to an engine that has written nothing, and
    what is heard of it comes behind what was heard before. -/
theorem operate_silent (s : Engine γ) {op : Operation γ} (htunes : ¬ op.tunes)
    (hshows : op.shows? = none) :
    (s.operate op).1 = (s.silent.operate op).1 ∧
      (s.operate op).2.silent = (s.silent.operate op).2.silent ∧
      (s.operate op).2.heard = s.heard ++ (s.silent.operate op).2.heard := by
  have hengine := operate_muted [] s htunes hshows
  have hsilent := operate_muted (s.muted []).transcript.newestFirst s.silent htunes hshows
  -- The engine without traces is the silent engine with what was heard before.
  have hsame : s.silent.muted (s.muted []).transcript.newestFirst = s.muted [] := rfl
  rw [hsame, hengine] at hsilent
  have hreply : (s.operate op).1 = (s.silent.operate op).1 := by
    simpa using congrArg Prod.fst hsilent
  have hafter := congrArg Prod.snd hsilent
  refine ⟨hreply, congrArg (fun t => { t with transcript := .empty }) hafter, ?_⟩
  have hheard := congrArg (·.transcript.emissions) hafter
  simpa [heard_eq, muted, Transcript.emissions] using hheard

end Engine

/-! ### Operations one by one -/

/-- An operation, with the engine before it. -/
structure Exchange (γ : Type) where
  /-- The engine before it. -/
  before : Engine γ
  /-- The operation. -/
  op : Operation γ

variable [RandomSource γ]

namespace Exchange

/-- The engine after it. -/
def after (x : Exchange γ) : Engine γ := (x.before.operate x.op).2

/-- The answer to it. -/
def reply (x : Exchange γ) : Reply := (x.before.operate x.op).1

/-- What is heard of it. -/
def heard (x : Exchange γ) : List Emission := x.after.heard.drop x.before.heard.length

/-- Whether two exchanges are of the same operation and nothing sets them apart but what is said of
    a switch that is shown: that is the state it is in. -/
structure Alike (x y : Exchange γ) : Prop where
  /-- The same is done. -/
  op : x.op = y.op
  /-- The answer is the same. -/
  reply : x.reply = y.reply
  /-- So is what is heard, unless a switch for traces or times is shown. -/
  heard : x.op.shows? = none → x.heard = y.heard
  /-- Of a switch that is shown its state is heard. -/
  shown : ∀ switch ∈ x.op.shows?, x.heard = [x.before.switchLine switch] ∧
    y.heard = [y.before.switchLine switch]

variable {x y z : Exchange γ}

/-- Exchanges are alike either way round. -/
theorem Alike.symm (h : x.Alike y) : y.Alike x where
  op := h.op.symm
  reply := h.reply.symm
  heard hshows := (h.heard (h.op ▸ hshows)).symm
  shown switch hshows := (h.shown switch (h.op ▸ hshows)).symm

/-- Exchanges that are alike to the same one are alike. -/
theorem Alike.trans (h : x.Alike y) (h' : y.Alike z) : x.Alike z where
  op := h.op.trans h'.op
  reply := h.reply.trans h'.reply
  heard hshows := (h.heard hshows).trans (h'.heard (h.op ▸ hshows))
  shown switch hshows := ⟨(h.shown switch hshows).1, (h'.shown switch (h.op ▸ hshows)).2⟩

/-- Rows of exchanges that are alike to a third are alike. -/
theorem Alike.rows {xs ys zs : List (Exchange γ)} (h : List.Forall₂ Alike xs ys)
    (h' : List.Forall₂ Alike zs ys) :
    List.Forall₂ Alike xs zs := by
  induction h generalizing zs with
  | nil =>
    cases h'
    exact .nil
  | cons hxy _ ih =>
    cases h' with
    | cons hzy hrest => exact .cons (hxy.trans hzy.symm) (ih hrest)

end Exchange

/-- The operations of a session, each with the engine before it. -/
def Engine.exchanges (s : Engine γ) : List (Operation γ) → List (Exchange γ)
  | [] => []
  | op :: ops => ⟨s, op⟩ :: (s.operate op).2.exchanges ops

variable {s t : Engine γ} {op : Operation γ} {ops ops' : List (Operation γ)}

/-- Showing a switch writes one line and changes nothing else. -/
theorem exchange_showing (s : Engine γ) {switch : Switch} (hshows : op.shows? = some switch) :
    (Exchange.mk s op).reply = .done ∧ (Exchange.mk s op).after.silent = s.silent ∧
      (Exchange.mk s op).heard = [s.switchLine switch] := by
  have hoperate : s.operate op = (.done, s.emit (s.switchLine switch)) := operate_showing s hshows
  unfold Exchange.reply Exchange.heard Exchange.after
  dsimp only
  rw [hoperate, heard_emit s rfl]
  exact ⟨rfl, rfl, List.drop_left⟩

/-- Turning a switch for traces or times is not heard, and changes nothing but the switch. -/
theorem exchange_tuning (s : Engine γ) (htunes : op.tunes) :
    (Exchange.mk s op).reply = .done ∧ (Exchange.mk s op).after.silent = s.silent ∧
      (Exchange.mk s op).heard = [] := by
  obtain ⟨hreply, hafter⟩ := operate_tuning [] s htunes
  unfold Exchange.reply Exchange.heard Exchange.after
  dsimp only
  rw [heard_eq (s.operate op).2, hafter, ← heard_eq, List.drop_length]
  exact ⟨hreply, congrArg (fun t => { t with transcript := .empty }) hafter, rfl⟩

/-- **One operation.**  On engines that differ in the switches only, the same operation is answered
in the same way and leaves engines that differ in the switches only. -/
theorem exchange_alike (h : s.silent = t.silent) (htunes : ¬ op.tunes) :
    (Exchange.mk s op).Alike ⟨t, op⟩ ∧ (s.operate op).2.silent = (t.operate op).2.silent := by
  cases hshows : op.shows? with
  | none =>
    obtain ⟨hreply, hafter, hheard⟩ := operate_silent s htunes hshows
    obtain ⟨hreply', hafter', hheard'⟩ := operate_silent t htunes hshows
    rw [← h] at hreply' hafter' hheard'
    refine ⟨⟨rfl, hreply.trans hreply'.symm, fun _ => ?_, fun switch hmem => ?_⟩,
      hafter.trans hafter'.symm⟩
    · unfold Exchange.heard Exchange.after
      dsimp only
      rw [hheard, hheard', List.drop_left, List.drop_left]
    · rw [hshows] at hmem
      cases hmem
  | some switch =>
    obtain ⟨hreply, hafter, hheard⟩ := exchange_showing s hshows
    obtain ⟨hreply', hafter', hheard'⟩ := exchange_showing t hshows
    refine ⟨⟨rfl, hreply.trans hreply'.symm, fun hnone => ?_, fun switch' hmem => ?_⟩,
      hafter.trans (h.trans hafter'.symm)⟩
    · rw [hshows] at hnone
      cases hnone
    · rw [hshows] at hmem
      cases hmem
      exact ⟨hheard, hheard'⟩

/-! ### Sessions -/

/-- The operations that turn no switch for traces or times. -/
def Operation.shared (ops : List (Operation γ)) : List (Operation γ) := ops.filter (!·.tunes)

/-- The operations that turn a switch for traces or times make no difference to the others. -/
theorem shared_alike (h : s.silent = t.silent) (ops : List (Operation γ)) :
    List.Forall₂ Exchange.Alike ((s.exchanges ops).filter (!·.op.tunes))
      (t.exchanges (Operation.shared ops)) ∧
      (s.run ops).silent = (t.run (Operation.shared ops)).silent := by
  induction ops generalizing s t with
  | nil => exact ⟨.nil, h⟩
  | cons op ops ih =>
    by_cases htunes : op.tunes
    · obtain ⟨-, hafter, -⟩ := exchange_tuning s htunes
      have hrest := ih (hafter.trans h)
      simp only [exchanges, run_cons, Operation.shared, htunes, Bool.not_true,
        List.filter_cons_of_neg, Bool.false_eq_true, not_false_eq_true]
      exact hrest
    · obtain ⟨halike, hafter⟩ := exchange_alike h htunes
      obtain ⟨hrest, hend⟩ := ih hafter
      simpa [exchanges, Operation.shared, htunes] using ⟨⟨halike, hrest⟩, hend⟩

/-- Nothing is heard of turning a switch. -/
theorem exchanges_tuning (s : Engine γ) (ops : List (Operation γ)) :
    ∀ x ∈ s.exchanges ops, x.op.tunes → x.reply = .done ∧ x.heard = [] := by
  induction ops generalizing s with
  | nil => simp [exchanges]
  | cons op ops ih =>
    refine List.forall_mem_cons.2 ⟨fun htunes => ?_, ih _⟩
    obtain ⟨hreply, -, hheard⟩ := exchange_tuning s htunes
    exact ⟨hreply, hheard⟩

/-- **Traces and times make no difference.**  Two sessions begin with engines that differ in the
switches for traces and times only, and have the same operations but for those that turn these
switches.  Then the engines at the end differ in the switches only; the operations that both have
are answered in the same way and the same is heard of them, but that each session says how a switch
is turned when it is shown; and of the others nothing is heard. -/
theorem switches_make_no_difference (h : s.SameButSwitches t)
    (hops : Operation.shared ops = Operation.shared ops') :
    (s.run ops).SameButSwitches (t.run ops') ∧
      List.Forall₂ Exchange.Alike ((s.exchanges ops).filter (!·.op.tunes))
        ((t.exchanges ops').filter (!·.op.tunes)) ∧
      ∀ x ∈ s.exchanges ops ++ t.exchanges ops', x.op.tunes → x.reply = .done ∧ x.heard = [] := by
  obtain ⟨halike, hend⟩ := shared_alike (sameButSwitches_iff.1 h) ops
  obtain ⟨halike', hend'⟩ := shared_alike (s := t) rfl ops'
  rw [hops] at halike hend
  exact ⟨sameButSwitches_iff.2 (hend.trans hend'.symm), Exchange.Alike.rows halike halike',
    List.forall_mem_append.2 ⟨exchanges_tuning s ops, exchanges_tuning t ops'⟩⟩

/-- Turning a switch on. -/
def switchOn (switch : Switch) : Operation ChaCha := .act (.command (.option switch (some true)))

/-- Showing whether traces are switched on. -/
def showLogging : Operation ChaCha := .act (.command (.option .logging none))

/-- A program that asks for a value is entered and run, with a switch shown and an error at its
    end. -/
def untuned : List (Operation ChaCha) :=
  [.act (.enter "10 INPUT A"), .act (.enter "20 PRINT A"), .act (.enter "RUN"), .poll 9,
    .act (.enter "7"), .poll 9, showLogging, .poll 9]

/-- Traces and times are switched on in between. -/
def tuned : List (Operation ChaCha) :=
  [.act (.enter "10 INPUT A"), switchOn .logging, .act (.enter "20 PRINT A"), .act (.enter "RUN"),
    .poll 9, switchOn .timing, .act (.enter "7"), .poll 9, showLogging, .poll 9]

/-- But for traces and times the two sessions are alike, except in what is said of the switch. -/
theorem switches_make_no_difference_tuned :
    let s := start (ChaCha.ofSeed 1)
    let t := s.turn .timing true
    (s.run tuned).SameButSwitches (t.run untuned) ∧
      List.Forall₂ Exchange.Alike ((s.exchanges tuned).filter (!·.op.tunes))
        ((t.exchanges untuned).filter (!·.op.tunes)) ∧
      ∀ x ∈ s.exchanges tuned ++ t.exchanges untuned, x.op.tunes → x.reply = .done ∧ x.heard = [] :=
  switches_make_no_difference ⟨_, _, _, rfl⟩ rfl

/-- Where a switch is shown, what is written depends on it. -/
theorem shown_switch_differs :
    let s := start (ChaCha.ofSeed 1)
    Operation.shared [switchOn .logging, showLogging] = Operation.shared [showLogging] ∧
      (s.run [switchOn .logging, showLogging]).heard = [.output "Option: logging is true.\n"] ∧
      (s.run [showLogging]).heard = [.output "Option: logging is false.\n"] ∧
      (s.run [switchOn .logging, showLogging]).heard ≠ (s.run [showLogging]).heard :=
  ⟨rfl, by decide +kernel, by decide +kernel, by decide +kernel⟩

end LineBasic
