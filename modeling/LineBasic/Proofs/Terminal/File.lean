import LineBasic.Proofs.Engine.Happened
import LineBasic.Proofs.Line.Grammar
import LineBasic.Proofs.Terminal.Load

namespace LineBasic

open Engine

/-!
# Files with errors

What is left of a file without direct statements, some lines of which cannot be read.

* `Entry.fault?` -- what is wrong with a line of a file, if anything is;
* `Listing.edited`, `Listing.editedUntil` -- a program after the edits of some lines, and of the
  lines before the first one that cannot be read;
* `faultsOf` -- what is wrong with the lines of a file, each fault with the number of its line;
* `Engine.Midway` -- an engine in the middle of a file;
* `Engine.Midway.enter`, `Engine.Midway.poll`, `Engine.Feeds.midway` -- what a line, other work, and
  a whole file come to;
* `Engine.load_file` -- the main result.
-/

/-! ### Lines that can be read, and others -/

/-- What is wrong with a line of a file, if anything is. A line of nothing but space is passed
    over. -/
def Entry.fault? (text : String) : Option Diagnostic :=
  if Text.allSpace text.toList then none
  else
    match Entry.ofText text with
    | .ok _ => none
    | .error d => some d

/-- Whether a line of a file can be read, or passed over. -/
def Entry.isSound (text : String) : Bool := (Entry.fault? text).isNone

/-- A program after the edit that a text asks for. Any other text leaves it as it is. -/
def Listing.edited (p : Listing) (text : String) : Listing :=
  match Entry.ofText text with
  | .ok (.store n statement) => p.insert (.ofText n text statement)
  | .ok (.delete n) => p.erase n
  | _ => p

/-- A program after the edits of the lines before the first one that cannot be read. -/
def Listing.editedUntil (p : Listing) (lines : List String) : Listing :=
  (lines.takeWhile Entry.isSound).foldl Listing.edited p

/-- What is wrong with some lines of a file, each fault with the number of its line. -/
def faultsOf (first : Nat) (lines : List String) : List Diagnostic :=
  (lines.zipIdx first).filterMap fun (text, k) => (Entry.fault? text).map (·.atFileLine k)

variable {text : String} {p : Listing} {k n : Nat}

/-- The faults of a file are that of its first line and those of the rest. -/
theorem faultsOf_cons (lines : List String) :
    faultsOf k (text :: lines) = ((Entry.fault? text).map (·.atFileLine k)).toList ++
      faultsOf (k + 1) lines := by
  unfold faultsOf
  rw [List.zipIdx_cons, List.filterMap_cons]
  cases hfault : Entry.fault? text <;> simp [hfault]

/-- Space is no entry. -/
theorem Entry.ofText_of_allSpace (h : Text.allSpace text.toList) :
    (Entry.ofText text).toOption = none := by
  have hempty : trimmed text = "" := by rw [trimmed, Text.trimEnd_of_allSpace h]
  rw [← Entry.ofText_trimmed, hempty, Entry.ofText_empty]

/-- What cannot be read is no entry, and is not only space. -/
theorem Entry.isSound_eq_false :
    Entry.isSound text = false ↔ Text.allSpace text.toList = false ∧
      ∃ d, Entry.ofText text = .error d := by
  unfold Entry.isSound Entry.fault?
  cases hspace : Text.allSpace text.toList with
  | true => simp
  | false => cases hentry : Entry.ofText text <;> simp

/-- A line that cannot be read edits nothing. -/
theorem Listing.edited_of_not_isSound (h : Entry.isSound text = false) : p.edited text = p := by
  obtain ⟨-, d, hentry⟩ := Entry.isSound_eq_false.1 h
  rw [Listing.edited, hentry]

/-- The edits go on behind a line that can be read, and stop at one that cannot. -/
theorem Listing.editedUntil_cons (lines : List String) :
    p.editedUntil (text :: lines) = if Entry.isSound text then (p.edited text).editedUntil lines
      else p := by
  cases hsound : Entry.isSound text <;> simp [Listing.editedUntil, hsound]

/-- Space edits nothing. -/
theorem Listing.edited_of_allSpace (h : Text.allSpace text.toList) : p.edited text = p := by
  have hnone := Entry.ofText_of_allSpace h
  cases hentry : Entry.ofText text with
  | ok entry => rw [hentry] at hnone; cases hnone
  | error d => rw [Listing.edited, hentry]

/-- Deleting a line that there is not changes nothing. -/
theorem Listing.erase_of_not_contains (h : p.contains n = false) : p.erase n = p := by
  refine Listing.eq_of_lines (List.filter_eq_self.2 fun l hl => ?_)
  have hne := List.any_eq_false.1 h l hl
  simpa using hne

namespace Engine

variable {γ : Type}

/-- An engine in the middle of a file: how many lines it has taken, whether all of them could be
read, and the program so far. -/
structure Midway (s : Engine γ) (k : Nat) (clean : Bool) (p : Listing) : Prop where
  /-- A line that could not be read is not forgotten. -/
  mode : s.mode = if clean then .loading else .loadFailed
  /-- The lines are counted. -/
  fileLine : s.fileLine = some k
  /-- No values are asked for. -/
  pending : s.pending = none
  /-- No direct statement waits. -/
  direct : s.direct = none
  /-- The program is what the lines have made of it. -/
  listing : s.listing = p

variable {s : Engine γ} {clean : Bool}

/-- A load begins with an empty program, whatever the engine was doing. -/
theorem midway_beginLoad (s : Engine γ) : s.beginLoad.Midway 0 true .empty where
  mode := stop_mode _
  fileLine := stop_fileLine _
  pending := stop_pending _
  direct := stop_direct _
  listing := stop_listing _

variable [RandomSource γ]

omit [RandomSource γ] in
/-- Counting the next line keeps a file in the middle of its load. -/
theorem Midway.counted (h : s.Midway k clean p) : s.counted.Midway (k + 1) clean p where
  mode := h.mode
  fileLine := by simp [Engine.counted, h.fileLine]
  pending := h.pending
  direct := h.direct
  listing := h.listing

omit [RandomSource γ] in
/-- A fault is noted with the number of the line, and the load has failed. -/
theorem Midway.fail (h : s.Midway k clean p) (d : Diagnostic) :
    (s.fail d).Midway k false p ∧ (s.fail d).errors = s.errors ++ [d.atFileLine k] := by
  have hmode : s.mode ≠ .running := by
    rw [h.mode]
    split <;> simp
  have hfail : s.fail d =
      { s with errors := s.errors ++ [d.atFileLine k], pending := none, mode := .loadFailed } := by
    have hplaced : s.placed d = d.atFileLine k := by rw [placed, h.fileLine]
    have hstopped : (s.noted d).stopRun = s.noted d := if_neg hmode
    have hloading : (s.noted d).isLoading := by simp [isLoading, noted, report, h.fileLine]
    rw [fail_eq, hstopped, spoilLoad, if_pos hloading, noted, hplaced]
    rfl
  rw [hfail]
  exact ⟨⟨rfl, h.fileLine, rfl, h.direct, h.listing⟩, rfl⟩

omit [RandomSource γ] in
/-- Writing a trace takes nothing from a file. -/
theorem Midway.traced (h : s.Midway k clean p) (trace : String) :
    (s.traced trace).Midway k clean p ∧ (s.traced trace).errors = s.errors := by
  rw [traced_eq]
  exact ⟨⟨h.mode, h.fileLine, h.pending, h.direct, h.listing⟩, rfl⟩

omit [RandomSource γ] in
/-- Deleting a line that there is not goes unnoticed. -/
theorem Midway.delete (h : s.Midway k true p) (n : Nat) :
    (s.delete n).Midway k true (p.erase n) ∧ (s.delete n).errors = s.errors := by
  have hpaused : s.mode ≠ .paused := by simp [h.mode]
  have hloading : s.isLoading := by simp [isLoading, h.fileLine]
  obtain rfl := h.listing
  unfold Engine.delete
  rw [if_neg hpaused]
  cases hn : s.listing.contains n with
  | true => exact ⟨⟨h.mode, h.fileLine, h.pending, h.direct, rfl⟩, rfl⟩
  | false =>
    rw [if_neg (by simp), if_pos hloading, Listing.erase_of_not_contains hn]
    exact ⟨h, rfl⟩

omit [RandomSource γ] in
/-- As long as all lines could be read, an edit is made. -/
theorem Midway.accept (h : s.Midway k true p) {entry : Entry}
    (hentry : Entry.ofText text = .ok entry) (hdirect : ∀ statement, entry ≠ .direct statement) :
    (s.accept (trimmed text) entry).Midway k true (p.edited text) ∧
      (s.accept (trimmed text) entry).errors = s.errors := by
  cases entry with
  | store n statement =>
    obtain ⟨htraced, herrors⟩ := h.traced ("store " ++ Text.ofNat n)
    have hedited : p.edited text = p.insert (.ofText n (trimmed text) statement) := by
      simp only [Listing.edited, hentry, Line.ofText, trimmed_trimmed]
    rw [hedited, ← htraced.listing]
    exact ⟨⟨htraced.mode, htraced.fileLine, htraced.pending, htraced.direct, rfl⟩, herrors⟩
  | delete n =>
    obtain ⟨htraced, herrors⟩ := h.traced ("delete " ++ Text.ofNat n)
    have hedited : p.edited text = p.erase n := by simp only [Listing.edited, hentry]
    obtain ⟨hdelete, hsame⟩ := htraced.delete n
    rw [hedited]
    exact ⟨hdelete, hsame.trans herrors⟩
  | direct statement => exact absurd rfl (hdirect statement)

/-- What a line comes to in the middle of a file. -/
theorem Midway.enter (h : s.Midway k clean p)
    (hdirect : ∀ statement, Entry.ofText text ≠ .ok (.direct statement)) :
    (s.enter text).2.Midway (k + 1) (clean && Entry.isSound text)
        (if clean then p.edited text else p) ∧
      (s.enter text).2.errors =
        s.errors ++ ((Entry.fault? text).map (·.atFileLine (k + 1))).toList := by
  have hcounted := h.counted
  rw [enter_of_pending_none h.pending, allSpace_trimmed, Entry.ofText_trimmed]
  split
  next hspace =>
    have hfault : Entry.fault? text = none := if_pos hspace
    simpa [Entry.isSound, hfault, Listing.edited_of_allSpace hspace] using ⟨hcounted, rfl⟩
  next hspace =>
    cases hentry : Entry.ofText text with
    | error d =>
      have hfault : Entry.fault? text = some d := by simp [Entry.fault?, hspace, hentry]
      obtain ⟨hmidway, herrors⟩ := hcounted.fail d
      have hsound : Entry.isSound text = false := by simp [Entry.isSound, hfault]
      simpa [hsound, hfault, Listing.edited_of_not_isSound hsound] using ⟨hmidway, herrors⟩
    | ok entry =>
      have hfault : Entry.fault? text = none := by simp [Entry.fault?, hspace, hentry]
      simp only [Entry.isSound, hfault, Option.isNone_none, Bool.and_true, Option.map_none,
        Option.toList_none, List.append_nil]
      -- After the first line that cannot be read the program stays as it was, however good the rest
      -- is.
      cases clean with
      | true =>
        have hmode : s.mode ≠ .loadFailed := by simp [h.mode]
        rw [if_neg hmode, if_pos rfl]
        exact hcounted.accept hentry fun statement heq => hdirect statement (heq ▸ hentry)
      | false =>
        have hmode : s.mode = .loadFailed := by simp [h.mode]
        rw [if_pos hmode]
        exact ⟨hcounted, rfl⟩

/-- Work within a budget does nothing in the middle of a file but to report errors. -/
theorem Midway.poll (h : s.Midway k clean p) (budget : Nat) :
    (Engine.poll budget s).2.Midway k clean p ∧
      reportsOf (ticks budget s) ++ (Engine.poll budget s).2.errors = s.errors := by
  have hidle : s.isIdle := by cases clean <;> simp [isIdle, h.mode]
  obtain ⟨errors, hpoll, hreports⟩ := poll_of_idle hidle h.pending h.direct budget
  rw [hpoll]
  exact ⟨⟨h.mode, h.fileLine, h.pending, h.direct, h.listing⟩, hreports⟩

/-- What some lines come to in the middle of a file, with any work in between. -/
theorem Feeds.midway {lines : List String} {ops : List (Operation γ)} (hops : Feeds lines ops)
    (hs : s.Midway k clean p)
    (hdirect : ∀ text ∈ lines, ∀ statement, Entry.ofText text ≠ .ok (.direct statement)) :
    (s.run ops).Midway (k + lines.length) (clean && lines.all Entry.isSound)
        (if clean then p.editedUntil lines else p) ∧
      reportsOf (s.trail ops) ++ (s.run ops).errors = s.errors ++ faultsOf (k + 1) lines := by
  induction hops generalizing s k clean p with
  | nil =>
    refine ⟨by simpa [Listing.editedUntil] using hs, ?_⟩
    simp [reportsOf, trail, faultsOf]
  | @poll lines ops budget _ ih =>
    obtain ⟨hpoll, hreports⟩ := hs.poll budget
    obtain ⟨hmidway, herrors⟩ := ih hpoll hdirect
    refine ⟨hmidway, ?_⟩
    have hsplit : reportsOf (s.trail (.poll budget :: ops))
        = reportsOf (ticks budget s) ++ reportsOf ((Engine.poll budget s).2.trail ops) :=
          List.flatMap_append
    show _ ++ ((Engine.poll budget s).2.run ops).errors = _
    rw [hsplit, List.append_assoc, herrors, ← List.append_assoc, hreports]
  | @line lines ops text _ ih =>
    obtain ⟨htext, hlines⟩ := List.forall_mem_cons.1 hdirect
    obtain ⟨henter, hsame⟩ := hs.enter htext
    obtain ⟨hmidway, herrors⟩ := ih henter hlines
    refine ⟨?_, ?_⟩
    · show ((s.enter text).2.run ops).Midway _ _ _
      rw [List.length_cons, List.all_cons, ← Bool.and_assoc, Nat.add_comm lines.length 1,
        ← Nat.add_assoc]
      convert hmidway using 1
      -- The edits go on as long as every line so far could be read.
      cases clean with
      | false => rfl
      | true =>
        rw [if_pos rfl, if_pos rfl, Bool.true_and, Listing.editedUntil_cons]
        split
        next => rfl
        next hsound => rw [Listing.edited_of_not_isSound (by simpa using hsound)]
    · show reportsOf ((s.enter text).2.trail ops) ++ ((s.enter text).2.run ops).errors = _
      rw [herrors, hsame, faultsOf_cons, List.append_assoc]

/-- **Files with errors.**  Let the lines of a file be entered in order between the beginning and
the end of a load, with any work in between, in whatever state the engine was before; none of the
lines is a statement without a number. Then the program is what the lines before the first
unreadable one have made of the empty program. For each unreadable line, and for nothing else, one
error is reported, with the number of the line in the file, behind the errors from before. The load
counts as clean if all lines could be read, and nothing goes on after it. -/
theorem load_file (s : Engine γ) {lines : List String} {ops : List (Operation γ)}
    (hops : Feeds lines ops)
    (hdirect : ∀ text ∈ lines, ∀ statement, Entry.ofText text ≠ .ok (.direct statement)) :
    let t := s.run (.act .beginLoad :: ops)
    let u := (t.respond .endLoad).2
    u.listing = Listing.empty.editedUntil lines ∧
      reportsOf (s.trail (.act .beginLoad :: ops)) ++ u.errors = s.errors ++ faultsOf 1 lines ∧
      (t.respond .endLoad).1 = .loaded (lines.all Entry.isSound) ∧
      u.mode = .prompt ∧ u.isLoading = false := by
  obtain ⟨hmidway, herrors⟩ := hops.midway (midway_beginLoad s) hdirect
  rw [Bool.true_and, if_pos rfl] at hmidway
  refine ⟨hmidway.listing, ?_, ?_, ?_, rfl⟩
  · have hbegin : s.beginLoad.errors = s.errors := stop_errors _
    rw [← hbegin]
    exact herrors
  · show Reply.loaded (decide ((s.beginLoad.run ops).mode ≠ .loadFailed)) = _
    rw [hmidway.mode]
    cases lines.all Entry.isSound <;> rfl
  · show (if (s.beginLoad.run ops).mode = .loading ∨
      (s.beginLoad.run ops).mode = .loadFailed then Mode.prompt
      else (s.beginLoad.run ops).mode) = .prompt
    rw [hmidway.mode]
    cases lines.all Entry.isSound <;> rfl

/-- A run that waits for values. -/
def asking : List (Operation ChaCha) := [.act (.enter "10 INPUT A"), .act (.enter "RUN"), .poll 5]

/-- A file with an empty line, a deletion, and two lines that cannot be read. -/
def spoiltFile : List String :=
  ["10 PRINT 1", "", "20 END", "10", "30 LET = 3", "40 END", "50 PRINT $"]

/-- The file as it is entered, with some work in between. -/
def spoiltFileEntered : List (Operation ChaCha) :=
  [.poll 3, .act (.enter "10 PRINT 1"), .act (.enter ""), .poll 2, .act (.enter "20 END"),
    .act (.enter "10"), .act (.enter "30 LET = 3"), .poll 1, .act (.enter "40 END"),
    .act (.enter "50 PRINT $")]

/-- Such a file: an empty line, a deletion, and two lines that cannot be read. -/
theorem load_file_spoiltFile :
    let s := (start (ChaCha.ofSeed 1)).run asking
    let t := s.run (.act .beginLoad :: spoiltFileEntered)
    let u := (t.respond .endLoad).2
    s.pending.isSome ∧ (Listing.empty.editedUntil spoiltFile).sources = ["20 END"] ∧
      (faultsOf 1 spoiltFile).map (·.fileLine) = [some 5, some 7] ∧
      u.listing = Listing.empty.editedUntil spoiltFile ∧
      reportsOf (s.trail (.act .beginLoad :: spoiltFileEntered)) ++ u.errors =
        s.errors ++ faultsOf 1 spoiltFile ∧
      (t.respond .endLoad).1 = .loaded (spoiltFile.all Entry.isSound) ∧
      u.mode = .prompt ∧ u.isLoading = false := by
  intro s t u
  have hpending : s.pending.isSome := by decide +kernel
  have hsources : (Listing.empty.editedUntil spoiltFile).sources = ["20 END"] := by decide +kernel
  have hlines : (faultsOf 1 spoiltFile).map (·.fileLine) = [some 5, some 7] := by decide +kernel
  have hdirect : ∀ text ∈ spoiltFile, ∀ statement, Entry.ofText text ≠ .ok (.direct statement) := by
    have hforms : spoiltFile.map (fun text => (Entry.ofText text).toOption.map Entry.form) =
        [some (.store 10 .PRINT), none, some (.store 20 .END), some (.delete 10), none,
          some (.store 40 .END), none] := by
      decide +kernel
    intro text htext statement hentry
    have hmem :=
      List.mem_map_of_mem (f := fun text => (Entry.ofText text).toOption.map Entry.form) htext
    rw [hforms, hentry] at hmem
    simp [Except.toOption, Entry.form] at hmem
  have hops : Feeds spoiltFile spoiltFileEntered :=
    .poll 3
      (.line _ (.line _ (.poll 2 (.line _ (.line _ (.line _ (.poll 1 (.line _ (.line _ .nil)))))))))
  exact ⟨hpending, hsources, hlines, load_file s hops hdirect⟩

end Engine

end LineBasic
