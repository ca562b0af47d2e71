import LineBasic.Proofs.Engine.Move
import LineBasic.Proofs.Engine.Source
import LineBasic.Random.ChaCha
import LineBasic.Terminal.Session

namespace LineBasic

open Engine

/-!
# Saved programs

A program that is saved and loaded again is the same program, to the columns of its statements.

* `Terminal.fileLines`, `Terminal.fileLines_saveText` -- the lines of a saved program are its texts;
* `Engine.Feeds` -- operations that enter the lines of a file, with any work in between;
* `Engine.Taking` -- an engine in the middle of a file without errors, with the lines taken so far;
* `Engine.Feeds.taking` -- each line is stored behind those before it, and nothing is reported;
* `Engine.load_saved` -- the main result.
-/

/-! ### The file of a program -/

namespace Terminal

/-- The lines of a file, as they are entered. -/
def fileLines (text : String) : List String := (Text.lines text.toList).map String.ofList

/-- The lines of a saved program are the texts of its lines, if no text has a line feed in it. -/
theorem fileLines_saveText {p : Listing} (hfaithful : ∀ l ∈ p.lines, l.Faithful)
    (hfeed : ∀ source ∈ p.sources, '\n' ∉ source.toList) :
    fileLines (Session.saveText p) = p.sources := by
  have htext : (Session.saveText p).toList =
      (p.sources.map String.toList).flatMap (· ++ ['\n']) := by
    simp [Session.saveText, written, String.toList_join, Listing.sources, List.flatMap_map,
      Function.comp_def]
  have hreturn : ∀ cs ∈ p.sources.map String.toList, cs.getLast? ≠ some '\r' := by
    intro cs hcs
    obtain ⟨source, hsource, rfl⟩ := List.mem_map.1 hcs
    obtain ⟨l, hl, rfl⟩ := List.mem_map.1 hsource
    intro hlast
    have hspace := Text.getLast?_trimEnd l.source.toList '\r'
    have htrimmed : Text.trimEnd l.source.toList = l.source.toList := by
      have hsame := congrArg String.toList (hfaithful l hl).trimmed
      simpa [trimmed] using hsame
    rw [htrimmed] at hspace
    exact absurd (hspace hlast) (by decide)
  have hnone : ∀ cs ∈ p.sources.map String.toList, '\n' ∉ cs := by
    intro cs hcs
    obtain ⟨source, hsource, rfl⟩ := List.mem_map.1 hcs
    exact hfeed source hsource
  rw [fileLines, htext, Text.lines_flatMap hnone hreturn]
  simp [Function.comp_def]

end Terminal

/-! ### Entering the lines of a file -/

namespace Engine

variable {γ : Type}

/-- Operations that enter some lines in their order, and otherwise only let the engine work. -/
inductive Feeds : List String → List (Operation γ) → Prop where
  | nil : Feeds [] []
  | poll {lines : List String} {ops : List (Operation γ)} (budget : Nat) (h : Feeds lines ops) :
      Feeds lines (.poll budget :: ops)
  | line {lines : List String} {ops : List (Operation γ)} (text : String) (h : Feeds lines ops) :
      Feeds (text :: lines) (.act (.enter text) :: ops)

/-- An engine in the middle of a file, with the lines that it has taken so far. -/
structure Taking (s : Engine γ) (taken : List Line) : Prop where
  /-- No error has been found in the file. -/
  mode : s.mode = .loading
  /-- No values are asked for. -/
  pending : s.pending = none
  /-- No direct statement waits. -/
  direct : s.direct = none
  /-- The program is what has been taken. -/
  listing : s.listing.lines = taken

variable {s : Engine γ} {taken : List Line}

/-- A load begins with an empty program, whatever the engine was doing. -/
theorem taking_beginLoad (s : Engine γ) : s.beginLoad.Taking [] where
  mode := stop_mode _
  pending := stop_pending _
  direct := stop_direct _
  listing := congrArg Listing.lines (stop_listing _)

/-- A line behind all others is stored at the end. -/
theorem place_eq_append {l : Line} {lines : List Line} (h : ∀ k ∈ lines, k.number < l.number) :
    Listing.place l lines = lines ++ [l] := by
  induction lines with
  | nil => rfl
  | cons k lines ih =>
    obtain ⟨hk, hlines⟩ := List.forall_mem_cons.1 h
    rw [Listing.place, if_pos hk, ih hlines, List.cons_append]

variable [RandomSource γ]

/-- A faithful line with a number above all others is taken as it is. -/
theorem Taking.enter (h : s.Taking taken) {l : Line} (hl : l.Faithful)
    (hlast : ∀ k ∈ taken, k.number < l.number) :
    (s.enter l.source).2.Taking (taken ++ [l]) ∧ (s.enter l.source).2.errors = s.errors := by
  let traced := s.counted.traced ("store " ++ Text.ofNat l.number)
  have hnotFailed : s.mode ≠ .loadFailed := by
    rw [h.mode]
    simp
  have henter : (s.enter l.source).2 = { traced with listing := traced.listing.insert l } := by
    have hline : Line.ofText l.number l.source l.statement = l := by rw [Line.ofText, hl.trimmed]
    have haccept : s.counted.accept l.source (.store l.number l.statement)
        = { traced with listing := traced.listing.insert l } := by rw [accept, hline]
    rw [enter_of_pending_none h.pending, hl.trimmed, if_neg hl.not_allSpace, hl.entry, ← haccept]
    exact if_neg hnotFailed
  have htraced : traced = { s.counted with transcript := traced.transcript } := traced_eq _ _
  rw [henter, htraced]
  refine ⟨⟨h.mode, h.pending, h.direct, ?_⟩, rfl⟩
  show Listing.place l s.listing.lines = taken ++ [l]
  rw [h.listing, place_eq_append hlast]

/-- Work within a budget does nothing but to report errors, if nothing goes on and nothing is asked
    for. -/
theorem poll_of_idle (hidle : s.isIdle) (hpending : s.pending = none) (hdirect : s.direct = none)
    (budget : Nat) :
    ∃ errors, (Engine.poll budget s).2 = { s with errors } ∧
      reportsOf (ticks budget s) ++ errors = s.errors := by
  cases budget with
  | zero => exact ⟨s.errors, rfl, rfl⟩
  | succ budget =>
    by_cases herrors : s.errors = []
    · have htick : s.tick = .inl (.stopped, s) := by
        unfold tick
        rw [if_neg (not_not.2 herrors)]
        simp only [hpending, hdirect]
        split <;> simp_all [isIdle]
      refine ⟨s.errors, ?_, ?_⟩
      · simp only [Engine.poll, htick]
      · simp [ticks, htick, reportsOf, Moment.reported, Event.reports]
    · have htick : s.tick = .inl (.errors s.errors, { s with errors := [] }) := by
        simp [tick, herrors]
      refine ⟨[], ?_, ?_⟩
      · simp only [Engine.poll, htick]
      · simp [ticks, htick, reportsOf, Moment.reported, Event.reports]

/-- Work within a budget does nothing in the middle of a file but to report errors from before. -/
theorem Taking.poll (h : s.Taking taken) (budget : Nat) :
    (Engine.poll budget s).2.Taking taken ∧
      reportsOf (ticks budget s) ++ (Engine.poll budget s).2.errors = s.errors := by
  have hidle : s.isIdle := by simp [isIdle, h.mode]
  obtain ⟨errors, hpoll, hreports⟩ := poll_of_idle hidle h.pending h.direct budget
  rw [hpoll]
  exact ⟨⟨h.mode, h.pending, h.direct, h.listing⟩, hreports⟩

/-- **The lines of a file.**  Faithful lines in ascending order are stored one behind the other as
    they are entered, and nothing is reported but errors from before. -/
theorem Feeds.taking {lines : List Line} {ops : List (Operation γ)}
    (hops : Feeds (lines.map Line.source) ops) (hs : s.Taking taken)
    (hfaithful : ∀ l ∈ lines, l.Faithful)
    (hascending : (taken ++ lines).Pairwise (·.number < ·.number)) :
    (s.run ops).Taking (taken ++ lines) ∧
      reportsOf (s.trail ops) ++ (s.run ops).errors = s.errors := by
  generalize htexts : lines.map Line.source = texts at hops
  -- What has been taken grows by the lines that are fed, and polls in between add nothing to it.
  induction hops generalizing s taken lines with
  | nil =>
    obtain rfl := List.map_eq_nil_iff.1 htexts
    rw [List.append_nil]
    exact ⟨hs, rfl⟩
  | @poll texts ops budget _ ih =>
    obtain ⟨hpoll, hreports⟩ := hs.poll budget
    obtain ⟨htaking, herrors⟩ := ih hpoll hfaithful hascending htexts
    refine ⟨htaking, ?_⟩
    have hsplit : reportsOf (s.trail (.poll budget :: ops))
        = reportsOf (ticks budget s) ++ reportsOf ((Engine.poll budget s).2.trail ops) :=
          List.flatMap_append
    show _ ++ ((Engine.poll budget s).2.run ops).errors = _
    rw [hsplit, List.append_assoc, herrors, hreports]
  | @line texts ops text _ ih =>
    cases lines with
    | nil => cases htexts
    | cons l lines =>
      obtain ⟨rfl, htail⟩ := List.cons.inj htexts
      obtain ⟨hl, hlines⟩ := List.forall_mem_cons.1 hfaithful
      have hlast : ∀ k ∈ taken, k.number < l.number := fun k hk =>
        (List.pairwise_append.1 hascending).2.2 k hk l List.mem_cons_self
      obtain ⟨henter, hsame⟩ := hs.enter hl hlast
      obtain ⟨htaking, herrors⟩ := ih henter hlines (by simpa using hascending) htail
      refine ⟨?_, ?_⟩
      · show ((s.enter l.source).2.run ops).Taking (taken ++ l :: lines)
        simpa using htaking
      · rw [← hsame, ← herrors]
        rfl

/-- **Saving and loading.**  Let a program have been made by any operations, without line feeds in
    its texts. If the lines of the file that it is saved in are entered in order between the
    beginning and the end of a load, with any work in between, in whatever state the engine was
    before, then the program is there again with its numbers, texts and statements, the load counts
    as one without errors, and no errors are reported or left to be reported but those from
    before. -/
theorem load_saved {γ' : Type} [RandomSource γ'] {u : Engine γ'} (hu : u.Reachable)
    (hfeed : ∀ source ∈ u.listing.sources, '\n' ∉ source.toList) (s : Engine γ)
    {ops : List (Operation γ)}
    (hops : Feeds (Terminal.fileLines (Terminal.Session.saveText u.listing)) ops) :
    let t := s.run (.act .beginLoad :: ops)
    (t.respond .endLoad).1 = .loaded true ∧ (t.respond .endLoad).2.listing = u.listing ∧
      reportsOf (s.trail (.act .beginLoad :: ops)) ++ (t.respond .endLoad).2.errors = s.errors := by
  have hfaithful : ∀ l ∈ u.listing.lines, l.Faithful := hu.faithful
  rw [Terminal.fileLines_saveText hfaithful hfeed] at hops
  obtain ⟨htaking, herrors⟩ := hops.taking (taking_beginLoad s) hfaithful u.listing.ascending
  have hclean : (s.beginLoad.run ops).mode ≠ .loadFailed := by rw [htaking.mode]; simp
  refine ⟨?_, ?_, ?_⟩
  · show Reply.loaded (decide ((s.beginLoad.run ops).mode ≠ .loadFailed)) = .loaded true
    rw [decide_eq_true hclean]
  · show (s.beginLoad.run ops).listing = u.listing
    exact Listing.eq_of_lines htaking.listing
  · have hbegin : s.beginLoad.errors = s.errors := stop_errors _
    rw [← hbegin, ← herrors]
    rfl

/-- Two lines, entered in the wrong order, with blanks in a number and at their ends. -/
def twoLines : List (Operation ChaCha) :=
  [.act (.enter "20PRINT \"A B\";-X  "), .act (.enter " 1 0 REM  kept ")]

/-- The beginning of a run that never ends. -/
def endless : List (Operation ChaCha) := [.act (.enter "10 GOTO 10"), .act (.enter "RUN"), .poll 3]

/-- The two lines, as they are entered from their file. -/
def twoLinesAgain : List (Operation ChaCha) :=
  [.poll 5, .act (.enter " 1 0 REM  kept"), .poll 1, .act (.enter "20PRINT \"A B\";-X")]

/-- Two lines that were saved, loaded into an engine whose run does not end. -/
theorem load_saved_twoLines :
    let u := (start (ChaCha.ofSeed 1)).run twoLines
    let s := (start (ChaCha.ofSeed 2)).run endless
    let t := s.run (.act .beginLoad :: twoLinesAgain)
    s.mode = .running ∧ u.listing.sources = [" 1 0 REM  kept", "20PRINT \"A B\";-X"] ∧
      (t.respond .endLoad).1 = .loaded true ∧ (t.respond .endLoad).2.listing = u.listing ∧
      reportsOf (s.trail (.act .beginLoad :: twoLinesAgain)) ++ (t.respond .endLoad).2.errors =
      s.errors := by
  intro u s t
  have hrunning : s.mode = .running := by decide +kernel
  have hsources : u.listing.sources = [" 1 0 REM  kept", "20PRINT \"A B\";-X"] := by decide +kernel
  have hfeed : ∀ source ∈ u.listing.sources, '\n' ∉ source.toList := by
    rw [hsources]
    decide +kernel
  have hlines : Terminal.fileLines (Terminal.Session.saveText u.listing) =
      [" 1 0 REM  kept", "20PRINT \"A B\";-X"] := by
    decide +kernel
  have hops : Feeds (Terminal.fileLines (Terminal.Session.saveText u.listing)) twoLinesAgain := by
    rw [hlines]
    exact .poll 5 (.line _ (.poll 1 (.line _ .nil)))
  exact ⟨hrunning, hsources, load_saved ⟨_, twoLines, rfl⟩ hfeed s hops⟩

end Engine

end LineBasic
