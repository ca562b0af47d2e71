import LineBasic.Proofs.Engine.Grouped
import LineBasic.Proofs.Engine.Served
import LineBasic.Proofs.Expr.Commas

namespace LineBasic

/-!
# Expressions as answers

An expression without commas can be given as the answer to a question, and is stored as it would be
if it were given to `RUN`.  An expression with a comma cannot, because answers are split at commas
before they are read.

* `fail_transcript` -- a failure says nothing when no values of `RUN` are left;
* `Concludes.answered`, `ask_after_run` -- what a stored value leaves, and what `RUN` and `INPUT`
  make of a value;
* `enter_comma` -- what an expression with a comma leaves;
* `expression_answers` -- the main result, for every engine that operations lead to;
* `comma_refused_usr` -- an expression that is refused.
-/

namespace Engine

variable {γ : Type} {s t : Engine γ} {q : Inquiry} {machine : Machine γ}

/-! ### What an answer leaves -/

/-- A failure writes nothing where no values of `RUN` are left. -/
theorem fail_transcript (h : s.queue = []) (d : Diagnostic) :
    (s.fail d).transcript = s.transcript := by
  rw [fail_eq]
  refine (spoilLoad_same _ (·.transcript) rfl).trans (stopRun_same _ (·.transcript) ?_)
  exact (stop_transcript _).trans (if_pos h)

/-- A question that has been answered is over, nothing is written, and nothing is reported unless
    the run of the line that asked has nowhere to go on. -/
theorem Concludes.answered (h : s.Concludes q machine t) (hqueue : s.queue = []) :
    t.machine = machine ∧ t.pending = none ∧ t.transcript = s.transcript ∧
      ((∀ n, q.line = some n → s.listing.nextAfter? n ≠ none) → t.errors = s.errors) := by
  cases hline : q.line with
  | none =>
    rw [h.direct hline]
    exact ⟨rfl, rfl, rfl, fun _ => rfl⟩
  | some n =>
    cases hnext : s.listing.nextAfter? n with
    | some next =>
      rw [h.onward n next hline hnext]
      exact ⟨rfl, rfl, rfl, fun _ => rfl⟩
    | none =>
      rw [h.last n hline hnext]
      exact ⟨fail_machine _ _, fail_pending _ _,
        fail_transcript (s := { s with machine, pending := none }) hqueue _,
        fun hall => absurd hnext (hall n rfl)⟩

variable [RandomSource γ]

/-- A single expression is evaluated as the only one of a list. -/
theorem evalAll_singleton {e : Expr} {n : Int16} {m m' : Machine γ} (h : e.eval m = .ok n m') :
    evalAll [e] m = .ok [n] m' := by
  rw [evalAll, bind_of_ok h]
  rfl

/-- A value that is given to `RUN` is stored by an `INPUT` of one variable. -/
theorem ask_after_run {span : Span} {e : Expr} {n : Int16} {m : Machine γ} {first : Nat}
    (x : Letter) (line : Option Nat) (hmode : s.mode ≠ .paused)
    (hfirst : s.listing.first? = some first) (hvalue : e.eval s.machine = .ok n m) :
    ∃ u, execute none (.run span [e]) s = .ok () u ∧ u.mode = .running ∧
      (ask line u [x]).machine = { m with vars := m.vars.set x n } ∧
      (ask line u [x]).pending = s.pending := by
  refine ⟨_, execute_launch hmode hfirst (evalAll_singleton hvalue), rfl, ?_, ?_⟩ <;> rfl

/-- An answer with a comma that is an expression is refused: what stands before the comma is taken
    for an answer, and is none. -/
theorem enter_comma {text : String} {tokens : List Token} {e : Expr} (hq : s.pending = some q)
    (hne : q.awaiting ≠ []) (htrim : Text.trim text.toList = text.toList)
    (hcomma : ',' ∈ text.toList) (hscan : Token.scan text = .ok tokens)
    (hread : Expr.ofTokens tokens = .ok e) :
    ∃ answer, (s.enter text).2 =
      ({ s.counted with pending := none } : Engine γ).fail
        ((Cause.invalidInput answer).diagnostic.atLine q.line) := by
  obtain ⟨front, rest, htext, hfront⟩ := List.eq_append_cons_of_mem hcomma
  have hpieces : Text.split (· == ',') (Text.trimEnd text.toList) = front ::
      Text.split (· == ',') rest := by
    have htrimEnd : Text.trimEnd text.toList = text.toList := by
      rw [← htrim, Text.trim, Text.trimEnd_trimEnd]
    rw [htrimEnd, htext]
    exact Text.split_append (fun c hc => beq_false_of_ne fun heq => hfront (heq ▸ hc)) rfl
  -- The first answer is what stands before the first comma, and only one that can be read has a
  -- value.
  have hbad : ∀ t : Engine γ, t.answerValue (.ofList (Text.trim front)) = (none, t) := by
    intro t
    unfold answerValue
    split
    next => rfl
    next tokens' hscan' =>
      split
      next => rfl
      next e' hread' =>
        exact absurd hread' (Expr.no_value_before_comma htrim htext hscan hread hscan')
  obtain ⟨x, xs, hxs⟩ := List.exists_cons_of_ne_nil hne
  refine ⟨String.ofList (Text.trim front), ?_⟩
  rw [enter_of_pending hq]
  show s.counted.answer q text = _
  rw [answer, hpieces, hxs, takeAnswers, hbad]

/-- **Main result.**  Let a value be asked for one more variable, and let a text without space
    around it be that of an expression that has a value.  If there are no commas in it, entering it
    stores the value and completes the question. Nothing is written, and nothing is reported, unless
    the line that asked is the last one and its run cannot go on. The variables and all else that
    expressions read are those that a `RUN` with the same expression leaves once an `INPUT` has
    taken its value.  With a comma in it, it is refused as a bad answer, and nothing is stored. -/
theorem expression_answers {x : Letter} {line : Option Nat} {text : String} {tokens : List Token}
    {e : Expr} {n : Int16} {m : Machine γ} (hs : s.Reachable) (hq : s.pending = some ⟨[x], line⟩)
    (htrim : Text.trim text.toList = text.toList) (hscan : Token.scan text = .ok tokens)
    (hread : Expr.ofTokens tokens = .ok e) (hvalue : e.eval s.machine = .ok n m) :
    (',' ∉ text.toList →
      ((s.enter text).2.machine = { m with vars := m.vars.set x n } ∧
        (s.enter text).2.pending = none ∧ (s.enter text).2.transcript = s.transcript ∧
        ((∀ k, line = some k → s.listing.nextAfter? k ≠ none) →
          (s.enter text).2.errors = s.errors)) ∧
      s.counted.Concludes ⟨[x], line⟩ { m with vars := m.vars.set x n } (s.enter text).2 ∧
      ∀ (u : Engine γ) (span : Span) (first : Nat), u.machine = s.machine → u.mode ≠ .paused →
        u.listing.first? = some first →
        ∃ v, execute none (.run span [e]) u = .ok () v ∧ v.mode = .running ∧
          (ask line v [x]).machine = (s.enter text).2.machine ∧
          (ask line v [x]).pending = u.pending) ∧
    (',' ∈ text.toList →
      (s.enter text).2.machine = s.machine ∧ (s.enter text).2.pending = none ∧
        ∃ d, (s.enter text).2.errors = s.errors ++ [d] ∧ d.code = .invalidInput) := by
  refine ⟨fun hcomma => ?_, fun hcomma => ?_⟩
  case refine_2 =>
    obtain ⟨answer, henter⟩ := enter_comma hq (List.cons_ne_nil x []) htrim hcomma hscan hread
    rw [henter]
    let t : Engine γ := { s.counted with pending := none }
    exact ⟨fail_machine t _, fail_pending t _, _, fail_errors t _, placed_code t _⟩
  -- The text is a complete set of answers, and a line of one answer is that answer.
  have hasking := hs.asking
  have hcounted : s.counted.Asking := ⟨hasking.queue, hasking.awaiting, hasking.line⟩
  have hanswering : Answering s.counted.machine [x] [text] { m with vars := m.vars.set x n } :=
    .cons (by rw [htrim, String.ofList_toList]; exact hscan) hread hvalue (.nil _)
  have htake : takeAnswers line { s.counted with pending := none } [x]
      ([text].map String.toList) = _ :=
    (takeAnswers_eq_some_iff rfl).2 ⟨_, hanswering, rfl, rfl⟩
  have henter := enter_answerLine_counted hq (List.cons_ne_nil text []) (by simpa using hcomma)
    (Nat.le_refl 1)
  rw [htake] at henter
  have hconcludes : s.counted.Concludes ⟨[x], line⟩ { m with vars := m.vars.set x n }
      (s.enter text).2 := by
    have htext : answerLine [text] = text := by simp [answerLine]
    rw [htext] at henter
    rw [henter]
    exact concludes_settleAnswers hcounted hq _
  obtain ⟨hmachine, hpending, htranscript, herrors⟩ :=
    hconcludes.answered (hasking.queue (by simp [hq]))
  refine ⟨⟨hmachine, hpending, htranscript, herrors⟩, hconcludes,
    fun u span first hsame hmode hfirst => ?_⟩
  rw [hmachine]
  exact ask_after_run x line hmode hfirst (hsame ▸ hvalue)

/-- A program that asks for a value and goes on. -/
def oneAsked : List (Operation ChaCha) :=
  [.act (.enter "10 INPUT A"), .act (.enter "20 END"), .act (.enter "RUN"), .poll 3]

/-- An answer with a sign, parentheses, a variable and a division. -/
theorem expression_answers_oneAsked :
    let s := (start (ChaCha.ofSeed 1)).run oneAsked
    let t := (s.enter "-(S/5)").2
    s.pending = some ⟨[⟨0⟩], some 10⟩ ∧ t.pending = none ∧ t.transcript = s.transcript ∧
      t.errors = s.errors ∧ t.machine.vars.get? ⟨0⟩ = some (-51) ∧ t.cursor = 20 := by
  intro s t
  have hpending : s.pending = some ⟨[⟨0⟩], some 10⟩ := by decide +kernel
  have hnext : s.listing.nextAfter? 10 = some 20 := by decide +kernel
  let e : Expr :=
    .unary ⟨0, 1⟩ .negate
      (.group ⟨1, 2⟩ (.binary ⟨3, 4⟩ .divide (.var ⟨2, 3⟩ ⟨18⟩) (.int ⟨4, 5⟩ 5)))
  have htree : ((Token.scan "-(S/5)").toOption.bind fun tokens => (Expr.ofTokens tokens).toOption) =
      some e := by
    decide +kernel
  obtain ⟨m, hvalue⟩ : ∃ m, e.eval s.machine = .ok (-51) m := by
    have hattempt : (s.attempt e).1 = some (-51) := by decide +kernel
    cases hvalue : e.eval s.machine with
    | error => simp [attempt, evaluating, hvalue] at hattempt
    | ok n m =>
      obtain rfl : n = -51 := by simpa [attempt, evaluating, hvalue] using hattempt
      exact ⟨m, rfl⟩
  cases hscan : Token.scan "-(S/5)" with
  | error d => simp [hscan, Except.toOption] at htree
  | ok tokens =>
    cases hread : Expr.ofTokens tokens with
    | error fault => simp [hscan, hread, Except.toOption] at htree
    | ok e' =>
      obtain rfl : e' = e := by simpa [hscan, hread, Except.toOption] using htree
      obtain ⟨⟨hmachine, hnone, htranscript, herrors⟩, hconcludes, -⟩ :=
        (expression_answers ⟨_, oneAsked, rfl⟩ hpending (by decide) hscan hread hvalue).1
          (by decide)
      refine ⟨hpending, hnone, htranscript, herrors fun k hk => ?_, ?_, ?_⟩
      · obtain rfl := Option.some.inj hk
        rw [hnext]
        exact Option.some_ne_none 20
      · show (s.enter "-(S/5)").2.machine.vars.get? _ = _
        rw [hmachine, Variables.get?_set, if_pos rfl]
      · show (s.enter "-(S/5)").2.cursor = _
        rw [hconcludes.onward 10 20 rfl hnext]

/-- An expression with a comma has a value, and is a value of `RUN`, but as an answer it is bad. -/
theorem comma_refused_usr :
    let s := (start (ChaCha.ofSeed 1)).run [.act (.enter "INPUT A"), .poll 2]
    let e : Expr := .usrAt ⟨0, 3⟩ (.int ⟨4, 7⟩ 276) (.int ⟨8, 9⟩ 5)
    let t := (s.enter "USR(276,5)").2
    s.pending = some ⟨[⟨0⟩], none⟩ ∧ Text.trim "USR(276,5)".toList = "USR(276,5)".toList ∧
      ((Token.scan "USR(276,5)").toOption.bind fun tokens => (Expr.ofTokens tokens).toOption) =
        some e ∧ (s.attempt e).1 = some 0 ∧
      (Entry.ofText "RUN USR(276,5)").toOption =
        some (.direct (.run ⟨0, 3⟩ [.usrAt ⟨4, 7⟩ (.int ⟨8, 11⟩ 276) (.int ⟨12, 13⟩ 5)])) ∧
      t.machine.vars.get? ⟨0⟩ = none ∧ t.pending = none ∧
      t.errors.map Diagnostic.code = [.invalidInput] := by
  decide +kernel

end Engine

end LineBasic
