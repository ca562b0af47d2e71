import LineBasic.Proofs.Engine.Pending
import LineBasic.Proofs.Engine.Refused
import LineBasic.Proofs.Text.Space

namespace LineBasic

/-!
# Answers in groups

How the answers to a question are distributed over lines makes no difference, and a complete set of
them is stored variable by variable.

* `takeAnswers_append`, `takeAnswers_congr` -- answers are taken one after the other, whatever space
  is around them;
* `Engine.enterAnswers` -- lines of answers are entered, up to the first one with a bad answer;
* `enterAnswers_append` -- two lines are as good as one;
* `Answering`, `Concludes` -- what a complete set of good answers makes of the machine and of the
  engine;
* `grouping_makes_no_difference` -- the main result, for every engine that operations lead to.
-/

namespace Engine

variable {γ : Type} [RandomSource γ] {s t : Engine γ} {q : Inquiry} {line : Option Nat}

/-! ### Taking answers -/

/-- The space around answers makes no difference, as long as there are not too many of them. -/
theorem takeAnswers_congr {xs : List Letter} {answers answers' : List (List Char)}
    (h : answers.map Text.trim = answers'.map Text.trim) (hlength : answers.length ≤ xs.length) :
    takeAnswers line s xs answers = takeAnswers line s xs answers' := by
  induction xs generalizing s answers answers' with
  | nil =>
    obtain rfl : answers = [] := List.length_eq_zero_iff.1 (Nat.le_zero.1 hlength)
    obtain rfl : answers' = [] := List.map_eq_nil_iff.1 h.symm
    rfl
  | cons x xs ih =>
    cases answers with
    | nil =>
      obtain rfl : answers' = [] := List.map_eq_nil_iff.1 h.symm
      rfl
    | cons a answers =>
      cases answers' with
      | nil => cases h
      | cons a' answers' =>
        obtain ⟨ha, hrest⟩ := List.cons.inj h
        -- An answer is trimmed before it is evaluated.
        rw [takeAnswers, takeAnswers, ha]
        split
        · exact ih hrest (Nat.le_of_succ_le_succ hlength)
        · rfl

/-- What is left when the answers are no more than are asked for. -/
theorem takeAnswers_some {xs ys : List Letter} {answers spare : List (List Char)}
    (h : takeAnswers line s xs answers = (some (ys, spare), t))
    (hlength : answers.length ≤ xs.length) :
    ys = xs.drop answers.length ∧ spare = [] ∧ ∃ machine, t = { s with machine } := by
  induction xs generalizing s answers with
  | nil =>
    obtain rfl : answers = [] := List.length_eq_zero_iff.1 (Nat.le_zero.1 hlength)
    cases h
    exact ⟨rfl, rfl, _, rfl⟩
  | cons x xs ih =>
    cases answers with
    | nil =>
      cases h
      exact ⟨rfl, rfl, _, rfl⟩
    | cons a answers =>
      obtain ⟨value, machine, hvalue⟩ := answerValue_uniform s.machine (String.ofList (Text.trim a))
      rw [takeAnswers, hvalue s rfl] at h
      cases value with
      | none => cases h
      | some n =>
        obtain ⟨hys, hspare, machine', rfl⟩ := ih h (Nat.le_of_succ_le_succ hlength)
        exact ⟨hys, hspare, machine', rfl⟩

/-- More answers are taken by the variables that are left. -/
theorem takeAnswers_append {xs : List Letter} {answers more : List (List Char)}
    (hlength : answers.length ≤ xs.length) :
    takeAnswers line s xs (answers ++ more) =
      match takeAnswers line s xs answers with
      | (some (ys, _), t) => takeAnswers line t ys more
      | (none, t) => (none, t) := by
  induction xs generalizing s answers with
  | nil =>
    obtain rfl : answers = [] := List.length_eq_zero_iff.1 (Nat.le_zero.1 hlength)
    rfl
  | cons x xs ih =>
    cases answers with
    | nil => rfl
    | cons a answers =>
      rw [List.cons_append, takeAnswers, takeAnswers]
      split
      · exact ih (Nat.le_of_succ_le_succ hlength)
      · rfl

/-! ### Lines of answers -/

/-- The line that some answers make up. -/
def answerLine (answers : List String) : String := ",".intercalate answers

/-- Whether there is a question, and the answers in a text have values as far as they are asked
    for. -/
def answersWell (s : Engine γ) (text : String) : Bool :=
  s.pending.any fun q =>
    (takeAnswers q.line { machine := s.machine } q.awaiting (answersIn text)).1.isSome

/-- Enters some lines of answers one after the other, up to the first one with a bad answer. -/
def enterAnswers (s : Engine γ) : List (List String) → Engine γ
  | [] => s
  | answers :: lines =>
    let t := (s.enter (answerLine answers)).2
    if s.answersWell (answerLine answers) then t.enterAnswers lines else t

/-- Answers in one group are entered as one line. -/
theorem enterAnswers_singleton (s : Engine γ) (answers : List String) :
    s.enterAnswers [answers] = (s.enter (answerLine answers)).2 := by
  simp [enterAnswers]

/-- The answers in the line that some answers without commas make up are those answers, up to
    space. -/
theorem trim_answersIn {answers : List String} (hne : answers ≠ [])
    (hcomma : ∀ a ∈ answers, ',' ∉ a.toList) :
    (answersIn (answerLine answers)).map Text.trim = (answers.map String.toList).map Text.trim := by
  rw [answersIn, answerLine, String.toList_intercalate]
  refine Text.trim_split_trimEnd (d := ',') rfl (by decide) (by simpa using hne)
    fun piece hpiece c hc => ?_
  obtain ⟨a, ha, rfl⟩ := List.mem_map.1 hpiece
  exact beq_false_of_ne fun heq => hcomma a ha (heq ▸ hc)

/-- The line that some answers make up has as many answers. -/
theorem length_answersIn {answers : List String} (hne : answers ≠ [])
    (hcomma : ∀ a ∈ answers, ',' ∉ a.toList) :
    (answersIn (answerLine answers)).length = answers.length := by
  simpa using congrArg List.length (trim_answersIn hne hcomma)

/-- So the answers in that line are taken as if they stood alone. -/
theorem takeAnswers_answersIn {xs : List Letter} {answers : List String} (hne : answers ≠ [])
    (hcomma : ∀ a ∈ answers, ',' ∉ a.toList) (hlength : answers.length ≤ xs.length) :
    takeAnswers line s xs (answersIn (answerLine answers)) =
      takeAnswers line s xs (answers.map String.toList) :=
  takeAnswers_congr (trim_answersIn hne hcomma) (by rw [length_answersIn hne hcomma]; exact hlength)

/-- What the engine makes of taken answers that are not too many. -/
def settleAnswers (q : Inquiry) : Option (List Letter × List (List Char)) × Engine γ → Engine γ
  | (none, s) => s
  | (some (awaiting, _), s) =>
    if awaiting ≠ [] then { s with pending := some { q with awaiting } }
    else if q.line.isSome && s.mode = .running then s.finishLine.2
    else s

/-- Entering no more answers than are asked for takes them and settles the question. -/
theorem enter_answerLine_counted (hq : s.pending = some q) {answers : List String}
    (hne : answers ≠ []) (hcomma : ∀ a ∈ answers, ',' ∉ a.toList)
    (hlength : answers.length ≤ q.awaiting.length) :
    (s.enter (answerLine answers)).2 = settleAnswers q
      (takeAnswers q.line { s.counted with pending := none } q.awaiting
        (answers.map String.toList)) := by
  have htake : takeAnswers q.line { s.counted with pending := none } q.awaiting
      (answersIn (answerLine answers)) = _ :=
    takeAnswers_answersIn hne hcomma hlength
  rw [enter_of_pending hq]
  show s.counted.answer q _ = _
  rw [answersIn] at htake
  unfold answer
  dsimp only
  rw [htake]
  obtain ⟨⟨rest, t⟩, hr⟩ :
      ∃ r, takeAnswers q.line { s.counted with pending := none } q.awaiting
        (answers.map String.toList) = r := ⟨_, rfl⟩
  rw [hr]
  cases rest with
  | none => rfl
  | some rest =>
    obtain ⟨ys, spare⟩ := rest
    obtain ⟨-, rfl, -⟩ := takeAnswers_some hr (by simpa using hlength)
    rfl

/-- The same, without a line of a file to count. -/
theorem enter_answerLine (hq : s.pending = some q) (hloading : s.isLoading = false)
    {answers : List String} (hne : answers ≠ []) (hcomma : ∀ a ∈ answers, ',' ∉ a.toList)
    (hlength : answers.length ≤ q.awaiting.length) :
    (s.enter (answerLine answers)).2 =
      settleAnswers q (takeAnswers q.line { s with pending := none } q.awaiting
        (answers.map String.toList)) := by
  have h := enter_answerLine_counted hq hne hcomma hlength
  rw [counted_eq_self hloading] at h
  exact h

/-- Whether answers that are not too many are good. -/
theorem answersWell_answerLine (hq : s.pending = some q) {answers : List String}
    (hne : answers ≠ []) (hcomma : ∀ a ∈ answers, ',' ∉ a.toList)
    (hlength : answers.length ≤ q.awaiting.length) :
    s.answersWell (answerLine answers) =
      (takeAnswers q.line { s with pending := none } q.awaiting
        (answers.map String.toList)).1.isSome := by
  obtain ⟨r, machine, -, h⟩ :=
    takeAnswers_uniform q.line s.machine q.awaiting (answers.map String.toList)
  rw [answersWell, hq, Option.any_some, takeAnswers_answersIn hne hcomma hlength,
    h { machine := s.machine } rfl, h { s with pending := none } rfl]
  cases r <;> rfl

/-- A question that gets good answers, but not all of them, is put for the rest of its variables. -/
theorem enter_of_more (hq : s.pending = some q) (hloading : s.isLoading = false)
    {answers : List String} (hne : answers ≠ []) (hcomma : ∀ a ∈ answers, ',' ∉ a.toList)
    (hlength : answers.length < q.awaiting.length) (hwell : s.answersWell (answerLine answers)) :
    ∃ machine,
      takeAnswers q.line { s with pending := none } q.awaiting (answers.map String.toList) =
        (some (q.awaiting.drop answers.length, []), { s with machine, pending := none }) ∧
      (s.enter (answerLine answers)).2 =
        { s with
          machine, pending := some { q with awaiting := q.awaiting.drop answers.length } } := by
  have henter := enter_answerLine hq hloading hne hcomma (Nat.le_of_lt hlength)
  rw [answersWell_answerLine hq hne hcomma (Nat.le_of_lt hlength)] at hwell
  obtain ⟨⟨rest, t⟩, hr⟩ :
      ∃ r, takeAnswers q.line { s with pending := none } q.awaiting (answers.map String.toList) =
        r := ⟨_, rfl⟩
  rw [hr] at hwell henter
  obtain ⟨⟨ys, spare⟩, rfl⟩ := Option.isSome_iff_exists.1 hwell
  obtain ⟨rfl, rfl, machine, rfl⟩ := takeAnswers_some hr (by simpa using Nat.le_of_lt hlength)
  rw [List.length_map] at hr henter
  have hleft : q.awaiting.drop answers.length ≠ [] := by simpa [List.drop_eq_nil_iff] using hlength
  refine ⟨machine, hr, henter.trans ?_⟩
  simp only [settleAnswers, if_pos hleft]

/-! ### Putting lines together -/

/-- **Two lines of answers are as good as one.** -/
theorem enterAnswers_append (hq : s.pending = some q) (hloading : s.isLoading = false)
    {answers more : List String} (hne : answers ≠ []) (hmore : more ≠ [])
    (hcomma : ∀ a ∈ answers ++ more, ',' ∉ a.toList)
    (hlength : (answers ++ more).length ≤ q.awaiting.length) :
    s.enterAnswers [answers, more] = s.enterAnswers [answers ++ more] := by
  have hfirst : ∀ a ∈ answers, ',' ∉ a.toList := fun a ha => hcomma a (List.mem_append_left _ ha)
  have hsecond : ∀ a ∈ more, ',' ∉ a.toList := fun a ha => hcomma a (List.mem_append_right _ ha)
  have hsum : answers.length + more.length ≤ q.awaiting.length := by simpa using hlength
  have hlt : answers.length < q.awaiting.length := by
    have hpos := List.length_pos_iff.2 hmore
    omega
  have hone :=
    enter_answerLine hq hloading (List.append_ne_nil_of_left_ne_nil hne more) hcomma hlength
  rw [List.map_append, takeAnswers_append (by simpa using Nat.le_of_lt hlt)] at hone
  rw [enterAnswers_singleton, hone, enterAnswers, enterAnswers_singleton]
  by_cases hwell : s.answersWell (answerLine answers) = true
  · -- The second line is taken by the variables that are left, on the machine that the first line
    -- has left.
    obtain ⟨machine, htake, henter⟩ := enter_of_more hq hloading hne hfirst hlt hwell
    rw [if_pos hwell, htake, henter]
    exact enter_answerLine (s := { s with machine, pending := some { q with awaiting := _ } }) rfl
      hloading hmore hsecond
      (by simp only [List.length_drop]; omega)
  · rw [if_neg hwell, enter_answerLine hq hloading hne hfirst (Nat.le_of_lt hlt)]
    rw [answersWell_answerLine hq hne hfirst (Nat.le_of_lt hlt)] at hwell
    obtain ⟨⟨rest, t⟩, hr⟩ :
        ∃ r, takeAnswers q.line { s with pending := none } q.awaiting (answers.map String.toList) =
          r := ⟨_, rfl⟩
    rw [hr] at hwell ⊢
    cases rest with
    | none => rfl
    | some => exact absurd rfl hwell

/-- Some lines of answers are as good as one. -/
theorem enterAnswers_flatten (hq : s.pending = some q) (hloading : s.isLoading = false)
    {groups : List (List String)} (hgroups : groups ≠ []) (hne : ∀ g ∈ groups, g ≠ [])
    (hcomma : ∀ a ∈ groups.flatten, ',' ∉ a.toList)
    (hlength : groups.flatten.length ≤ q.awaiting.length) :
    s.enterAnswers groups = s.enterAnswers [groups.flatten] := by
  -- The first line may leave fewer variables and another machine, so the induction is for any
  -- engine.
  induction groups generalizing s q with
  | nil => exact absurd rfl hgroups
  | cons g groups ih =>
    obtain ⟨hg, hgs⟩ := List.forall_mem_cons.1 hne
    by_cases hlast : groups = []
    · simp [hlast]
    have hrest : groups.flatten ≠ [] := by
      obtain ⟨g', gs, rfl⟩ := List.exists_cons_of_ne_nil hlast
      exact List.append_ne_nil_of_left_ne_nil (hgs g' List.mem_cons_self) _
    rw [List.flatten_cons] at hcomma hlength ⊢
    have hsum : g.length + groups.flatten.length ≤ q.awaiting.length := by simpa using hlength
    have hlt : g.length < q.awaiting.length := by
      have hpos := List.length_pos_iff.2 hrest
      omega
    rw [← enterAnswers_append hq hloading hg hrest hcomma hlength, enterAnswers, enterAnswers]
    by_cases hwell : s.answersWell (answerLine g) = true
    · obtain ⟨machine, -, henter⟩ :=
        enter_of_more hq hloading hg (fun a ha => hcomma a (List.mem_append_left _ ha)) hlt
        hwell
      rw [if_pos hwell, if_pos hwell, henter]
      exact ih (s := { s with machine, pending := some { q with awaiting := _ } }) rfl
        hloading hlast hgs
        (fun a ha => hcomma a (List.mem_append_right _ ha)) (by simp only [List.length_drop]; omega)
    · rw [if_neg hwell, if_neg hwell]

/-! ### Complete sets of answers -/

/-- What the values of some answers make of a machine: each is given to its variable, and then the
    next answer is evaluated. -/
inductive Answering : Machine γ → List Letter → List String → Machine γ → Prop
  | nil (m : Machine γ) : Answering m [] [] m
  | cons {m m₁ m₂ : Machine γ} {x : Letter} {xs : List Letter} {a : String} {answers : List String}
      {tokens : List Token} {e : Expr} {n : Int16}
      (hscan : Token.scan (String.ofList (Text.trim a.toList)) = .ok tokens)
      (hread : Expr.ofTokens tokens = .ok e) (hvalue : e.eval m = .ok n m₁)
      (hrest : Answering { m₁ with vars := m₁.vars.set x n } xs answers m₂) :
      Answering m (x :: xs) (a :: answers) m₂

/-- An answer has a value if it can be read and evaluated. -/
theorem answerValue_eq_some {answer : String} {n : Int16} :
    s.answerValue answer = (some n, t) ↔
      ∃ tokens e m, Token.scan answer = .ok tokens ∧ Expr.ofTokens tokens = .ok e ∧
      e.eval s.machine = .ok n m ∧ t = { s with machine := m } := by
  unfold answerValue
  cases hscan : Token.scan answer with
  | error => simp
  | ok tokens =>
    cases hread : Expr.ofTokens tokens with
    | error => simp [hread]
    | ok e =>
      cases hvalue : e.eval s.machine with
      | error => simp [hread, attempt, evaluating, hvalue]
      | ok k m => simp [hread, attempt, evaluating, hvalue, eq_comm]

/-- Good answers for all variables store their values. -/
theorem takeAnswers_eq_some_iff {xs : List Letter} {answers : List String}
    (hlength : answers.length = xs.length) {r : List Letter × List (List Char)} :
    takeAnswers line s xs (answers.map String.toList) = (some r, t) ↔
      ∃ machine, Answering s.machine xs answers machine ∧ r = ([], []) ∧
      t = { s with machine } := by
  -- Each answer is evaluated on the machine that those before it have left, so the machine is
  -- generalized.
  induction xs generalizing s answers with
  | nil =>
    obtain rfl : answers = [] := List.length_eq_zero_iff.1 hlength
    constructor
    · rintro ⟨⟩
      exact ⟨_, .nil _, rfl, rfl⟩
    · rintro ⟨machine, ⟨⟩, rfl, rfl⟩
      rfl
  | cons x xs ih =>
    obtain ⟨a, answers, rfl⟩ := List.exists_cons_of_length_eq_add_one hlength
    have hlength : answers.length = xs.length := Nat.succ.inj hlength
    rw [List.map_cons, takeAnswers]
    constructor
    · intro h
      split at h
      next n u hvalue =>
        obtain ⟨tokens, e, m, hscan, hread, heval, rfl⟩ := answerValue_eq_some.1 hvalue
        obtain ⟨machine, hrest, rfl, rfl⟩ := (ih hlength).1 h
        exact ⟨machine, .cons hscan hread heval hrest, rfl, rfl⟩
      next => cases h
    · rintro ⟨machine, hanswering, rfl, rfl⟩
      cases hanswering with
      | cons hscan hread hvalue hrest =>
        rw [answerValue_eq_some.2 ⟨_, _, _, hscan, hread, hvalue, rfl⟩]
        exact (ih hlength).2 ⟨machine, hrest, rfl, rfl⟩

/-- What an engine becomes once it has all values for a question. -/
structure Concludes (s : Engine γ) (q : Inquiry) (machine : Machine γ) (t : Engine γ) : Prop where
  /-- For a direct statement that is all. -/
  direct : q.line = none → t = { s with machine, pending := none }
  /-- A program line that asks is the one that its run stands at. -/
  line : ∀ n, q.line = some n → s.mode = .running ∧ s.cursor = n
  /-- Its run goes on at the next line, and a single step is to stop there. -/
  onward : ∀ n next, q.line = some n → s.listing.nextAfter? n = some next →
    t = { s with
      machine, pending := none, cursor := next, stepping := false,
      breakpoints := if s.stepping then s.breakpoints.arm next else s.breakpoints }
  /-- Without a next line the run fails. -/
  last : ∀ n, q.line = some n → s.listing.nextAfter? n = none →
    t = ({ s with machine, pending := none } : Engine γ).fail (s.atCursor .noEnd)

omit [RandomSource γ] in
/-- Once nothing is left to be asked for, the question is concluded. -/
theorem concludes_settleAnswers (hs : s.Asking) (hq : s.pending = some q) (machine : Machine γ) :
    s.Concludes q machine
      (settleAnswers q (some ([], []), { s with machine, pending := none })) := by
  obtain ⟨awaiting, line⟩ := q
  unfold settleAnswers
  dsimp only
  rw [if_neg (by simp)]
  -- A question of a direct statement is settled by itself; one of a line ends the line as well.
  cases line with
  | none => exact ⟨fun _ => rfl, (by rintro n ⟨⟩), (by rintro n next ⟨⟩), (by rintro n ⟨⟩)⟩
  | some n =>
    obtain ⟨hmode, hcursor, hbranch⟩ := hs.line _ n hq rfl
    let u : Engine γ := { s with machine, pending := none }
    have hor : u.branch.or (u.listing.nextAfter? u.cursor) = s.listing.nextAfter? n := by
      show s.branch.or (s.listing.nextAfter? s.cursor) = _
      rw [hbranch, hcursor, Option.none_or]
    rw [if_pos (by simp [hmode])]
    refine ⟨(by rintro ⟨⟩), ?_, ?_, ?_⟩
    · rintro _ ⟨⟩
      exact ⟨hmode, hcursor⟩
    · rintro _ next ⟨⟩ hnext
      generalize hr : u.finishLine = r
      cases hr ▸ finishLine_cases u with
      | moved k hk hstepping =>
        obtain rfl := Option.some.inj ((hk.symm.trans hor).trans hnext)
        have hstepping : s.stepping = false := hstepping
        simp [u, hstepping, hbranch]
      | stepped k hk hstepping =>
        obtain rfl := Option.some.inj ((hk.symm.trans hor).trans hnext)
        have hstepping : s.stepping = true := hstepping
        simp [u, hstepping, hbranch]
      | fellOff hk => cases (hk.symm.trans hor).trans hnext
    · rintro _ ⟨⟩ hnext
      generalize hr : u.finishLine = r
      cases hr ▸ finishLine_cases u with
      | moved k hk | stepped k hk => cases (hk.symm.trans hor).trans hnext
      | fellOff => rfl

/-- **Main result.**  Let values be asked for, while no file is being loaded.  However the same
    answers, no more than are asked for and without commas in them, are distributed over lines,
    entering these lines up to the first one with a bad answer leads to the same engine.  A complete
    set of good answers is stored variable by variable, each being evaluated after those before it
    have been stored, and the run of a program line goes on at the next line. -/
theorem grouping_makes_no_difference (hs : s.Reachable) (hq : s.pending = some q)
    (hloading : s.isLoading = false) :
    (∀ answers, s.enterAnswers [answers] = (s.enter (",".intercalate answers)).2) ∧
    (∀ groups groups' : List (List String), (∀ g ∈ groups, g ≠ []) → (∀ g ∈ groups', g ≠ []) →
      groups.flatten = groups'.flatten → (∀ a ∈ groups.flatten, ',' ∉ a.toList) →
      groups.flatten.length ≤ q.awaiting.length → s.enterAnswers groups = s.enterAnswers groups') ∧
    ∀ groups : List (List String), (∀ g ∈ groups, g ≠ []) → (∀ a ∈ groups.flatten, ',' ∉ a.toList) →
      groups.flatten.length = q.awaiting.length → s.answersWell (answerLine groups.flatten) →
      ∃ machine, Answering s.machine q.awaiting groups.flatten machine ∧
      s.Concludes q machine (s.enterAnswers groups) := by
  refine ⟨s.enterAnswers_singleton, fun groups groups' hne hne' hsame hcomma hlength => ?_,
    fun groups hne hcomma hlength hwell => ?_⟩
  · by_cases hnil : groups.flatten = []
    · -- There is nothing to enter.
      have hnone : ∀ gs : List (List String), (∀ g ∈ gs, g ≠ []) → gs.flatten = [] → gs = [] :=
        fun gs hgs hflat =>
        List.eq_nil_iff_forall_not_mem.2 fun g hg => hgs g hg (List.flatten_eq_nil_iff.1 hflat g hg)
      rw [hnone groups hne hnil, hnone groups' hne' (hsame ▸ hnil)]
    · have hgroups : ∀ gs : List (List String), gs.flatten = groups.flatten → gs ≠ [] := by
        rintro _ hflat rfl
        exact hnil hflat.symm
      rw [enterAnswers_flatten hq hloading (hgroups groups rfl) hne hcomma hlength, hsame,
        enterAnswers_flatten hq hloading (hgroups groups' hsame.symm) hne' (hsame ▸ hcomma)
          (hsame ▸ hlength)]
  · have hawaiting : groups.flatten ≠ [] := by
      intro h
      refine hs.asking.awaiting q hq (List.length_eq_zero_iff.1 ?_)
      rw [← hlength, h, List.length_nil]
    have hgroups : groups ≠ [] := by
      rintro rfl
      exact hawaiting rfl
    rw [answersWell_answerLine hq hawaiting hcomma (Nat.le_of_eq hlength)] at hwell
    rw [enterAnswers_flatten hq hloading hgroups hne hcomma (Nat.le_of_eq hlength),
      enterAnswers_singleton, enter_answerLine hq hloading hawaiting hcomma (Nat.le_of_eq hlength)]
    obtain ⟨⟨rest, t⟩, hr⟩ : ∃ r, takeAnswers q.line { s with pending := none } q.awaiting
        (groups.flatten.map String.toList) = r := ⟨_, rfl⟩
    rw [hr] at hwell ⊢
    obtain ⟨rest, rfl⟩ := Option.isSome_iff_exists.1 hwell
    obtain ⟨machine, hanswering, rfl, rfl⟩ := (takeAnswers_eq_some_iff hlength).1 hr
    exact ⟨machine, hanswering, concludes_settleAnswers hs.asking hq machine⟩

/-- A program that asks for three values, waiting for them. -/
def threeAsked : List (Operation ChaCha) :=
  [.act (.enter "10 INPUT A,B,C"), .act (.enter "20 PRINT A*B+C"), .act (.enter "30 END"),
    .act (.enter "RUN"), .poll 3]

/-- Three answers in one line or two lead to the same engine, also if one of them is bad. -/
theorem grouping_makes_no_difference_threeAsked :
    let s := (start (ChaCha.ofSeed 1)).run threeAsked
    s.enterAnswers [["5"], [" A*2 ", "A+B"]] = (s.enter "5, A*2 ,A+B").2 ∧
      s.enterAnswers [["5"], ["1/0"], ["7"]] = s.enterAnswers [["5", "1/0"], ["7"]] ∧
      ∃ machine, s.Concludes ⟨[⟨0⟩, ⟨1⟩, ⟨2⟩], some 10⟩ machine
        (s.enterAnswers [["5"], [" A*2 ", "A+B"]]) ∧ machine.vars.get? ⟨2⟩ = some 15 := by
  intro s
  have hs : s.Reachable := ⟨_, threeAsked, rfl⟩
  have hpending : s.pending = some ⟨[⟨0⟩, ⟨1⟩, ⟨2⟩], some 10⟩ := by decide +kernel
  have hnext : s.listing.nextAfter? 10 = some 20 := by decide +kernel
  obtain ⟨hone, hgroups, hcomplete⟩ := grouping_makes_no_difference hs hpending (by decide +kernel)
  obtain ⟨machine, -, h⟩ :=
    hcomplete [["5"], [" A*2 ", "A+B"]] (by decide) (by decide) rfl (by decide +kernel)
  refine ⟨?_, hgroups _ _ (by decide) (by decide) rfl (by decide) (by decide), machine, h, ?_⟩
  · exact (hgroups [["5"], [" A*2 ", "A+B"]] [["5", " A*2 ", "A+B"]] (by decide) (by decide)
      rfl (by decide) (by decide)).trans (hone _)
  · have hvalue : (s.enterAnswers [["5"], [" A*2 ", "A+B"]]).machine.vars.get? ⟨2⟩ = some 15 := by
      decide +kernel
    rw [h.onward 10 20 rfl hnext] at hvalue
    exact hvalue

end Engine

end LineBasic
