import LineBasic.Proofs.Engine.Advance
import LineBasic.Proofs.Engine.Answer
import LineBasic.Proofs.Engine.Carried
import LineBasic.Proofs.Engine.LineStatement

namespace LineBasic

open Engine

/-!
# Supplied runs

In a program that only jumps back, every line before the cursor has been carried out since the run
began.

* `Listing.InOrder` -- what is asked of the program;
* `Supplied`, `Placed`, `Prepared` -- what a run can rely on at the cursor, at the lines that
  subroutines return to, and where it waits for values;
* `Carried.onward`, `Carried.gives` -- what a statement leaves of that;
* `sequel_executeLine`, `sequel_answer` -- the work of a stored line fails for no want of a value,
  and leaves a run that can rely on as much.
-/

/-! ### Programs -/

/-- Whether every `GOTO` and `GOSUB` in a statement has a number as its target, up to a bound. -/
def Statement.jumpsUpTo (bound : Nat) : Statement → Bool
  | .goto _ target | .gosub _ target => target.literal?.any fun (_, n) => n.toInt ≤ bound
  | .cond _ _ _ _ body => body.jumpsUpTo bound
  | _ => true

/-- Whether every `GOTO` and `GOSUB` of a program goes back, or to its own line. -/
def Listing.JumpsBack (p : Listing) : Prop := ∀ l ∈ p.lines, l.statement.jumpsUpTo l.number

/-- A program that only jumps back, gives values openly, and reads nothing that no line further up
    gives a value. -/
structure Listing.InOrder (p : Listing) : Prop where
  jumpsBack : p.JumpsBack
  givesOpenly : p.GivesOpenly
  reads : ∀ l ∈ p.lines, ∀ x, l.statement.Reads x →
    ∃ k ∈ p.lines, k.number < l.number ∧ k.statement.Gives x

namespace Engine

variable {γ : Type} {s t : Engine γ}

/-- Whether a variable has a value. -/
def Has (s : Engine γ) (x : Letter) : Prop := (s.machine.vars.get? x).isSome

/-- Whether the variables of one engine that have values have values in another. -/
def Retains (s t : Engine γ) : Prop := ∀ x, s.Has x → t.Has x

/-- Whether all that is given a value by the lines before a number has a value. -/
def Supplied (s : Engine γ) (n : Nat) : Prop :=
  ∀ l ∈ s.listing.lines, l.number < n → ∀ x, l.statement.Gives x → s.Has x

/-- A run all of whose ways on are to lines for which the variables have been supplied. -/
structure Placed (s : Engine γ) : Prop where
  cursor : s.Supplied s.cursor
  frames : ∀ f ∈ s.calls.frames, s.Supplied f
  branch : ∀ n, s.branch = some n → s.Supplied n

/-- A run of this kind, in which the line at the cursor awaits all that it has not got yet. -/
structure Prepared (s : Engine γ) : Prop extends s.Placed where
  pending : ∀ q, s.pending = some q → q.line.isSome → ∀ l ∈ s.listing.lines, l.number = s.cursor →
    ∀ x, l.statement.Gives x → s.Has x ∨ x ∈ q.awaiting

/-- An engine whose run, if there is one, is a prepared run of a program in order. -/
def Secure (s : Engine γ) : Prop := ¬ s.isIdle → s.listing.InOrder ∧ s.Prepared

/-! ### Supplies -/

/-- Lines stay supplied as long as variables keep having values. -/
theorem supplied_of_retains {n : Nat} (h : s.Supplied n) (hlisting : t.listing = s.listing)
    (hretains : s.Retains t) : t.Supplied n :=
  fun l hl hn x hx => hretains x (h l (hlisting ▸ hl) hn x hx)

/-- What a line is supplied with, the lines further up are supplied with. -/
theorem Supplied.back {m n : Nat} (h : s.Supplied n) (hm : m ≤ n) : s.Supplied m :=
  fun l hl hlt => h l hl (Nat.lt_of_lt_of_le hlt hm)

/-- No line comes before the first one, so it is supplied. -/
theorem supplied_first? {n : Nat} (h : s.listing.first? = some n) : s.Supplied n :=
  fun _ hl hlt => absurd (Listing.first?_le h hl) (Nat.not_le.2 hlt)

/-- What a line and those before it give is all that is given before the next line. -/
theorem Supplied.next {m n : Nat} (h : s.Supplied m) (hn : s.listing.nextAfter? m = some n)
    (hm : ∀ l ∈ s.listing.lines, l.number = m → ∀ x, l.statement.Gives x → s.Has x) :
    s.Supplied n := by
  intro l hl hlt
  rcases Nat.lt_trichotomy l.number m with hlm | heq | hgt
  · exact h l hl hlm
  · exact hm l hl heq
  · exact absurd (Listing.nextAfter?_le hn hl hgt) (Nat.not_le.2 hlt)

/-- A run stays placed if it is where it was and variables keep having values. -/
theorem Placed.of_retains (hs : s.Placed) (hlisting : t.listing = s.listing)
    (hretains : s.Retains t) (hcursor : t.cursor = s.cursor) (hcalls : t.calls = s.calls)
    (hbranch : t.branch = s.branch) :
    t.Placed where
  cursor := hcursor ▸ supplied_of_retains hs.cursor hlisting hretains
  frames f hf := supplied_of_retains (hs.frames f (hcalls ▸ hf)) hlisting hretains
  branch n hn := supplied_of_retains (hs.branch n (hbranch ▸ hn)) hlisting hretains

/-- Where the variables are the same they keep having values. -/
theorem retains_of_vars (h : t.machine.vars = s.machine.vars) : s.Retains t := by
  intro x hx
  rw [Has, h]
  exact hx

/-- Variables that keep having values twice keep having values. -/
theorem Retains.trans {u : Engine γ} (h : s.Retains t) (h' : t.Retains u) : s.Retains u :=
  fun x hx => h' x (h x hx)

/-- Giving a variable a value takes no value away. -/
theorem retains_assign (s : Engine γ) (x : Letter) (n : Int16) : s.Retains (s.assign x n) := by
  intro y hy
  show ((s.machine.vars.set x n).get? y).isSome
  rw [Variables.get?_set]
  split
  · rfl
  · exact hy

/-- A variable that is given a value has one. -/
theorem has_assign (s : Engine γ) (x : Letter) (n : Int16) : (s.assign x n).Has x := by
  show ((s.machine.vars.set x n).get? x).isSome
  rw [Variables.get?_set, if_pos rfl]
  rfl

/-- Looking at the variables takes no value away. -/
theorem Looked.retains (h : s.Looked t) : s.Retains t := by
  obtain ⟨machine, hvars, rfl⟩ := h
  exact retains_of_vars hvars

/-- Looking at the variables leaves lines supplied. -/
theorem Looked.supplied (h : s.Looked t) {n : Nat} (hn : s.Supplied n) : t.Supplied n :=
  supplied_of_retains hn h.listing h.retains

/-! ### Statements -/

/-- Taking values of `RUN` takes no value away from a variable. -/
theorem ask_retains (line : Option Nat) (s : Engine γ) (xs : List Letter) :
    s.Retains (ask line s xs) := by
  induction xs generalizing s with
  | nil => exact fun _ hx => hx
  | cons x xs ih =>
    unfold ask
    split
    next => exact fun _ hx => hx
    next n queue _ => exact (retains_assign { s with queue } x n).trans (ih _)

/-- An `INPUT` gives all its variables values, or goes on asking for them. -/
theorem ask_gives (line : Option Nat) (s : Engine γ) {xs : List Letter} {x : Letter} (hx : x ∈ xs) :
    (ask line s xs).Has x ∨ ∃ q, (ask line s xs).pending = some q ∧ x ∈ q.awaiting := by
  induction xs generalizing s with
  | nil => cases hx
  | cons y ys ih =>
    unfold ask
    split
    next => exact .inr ⟨⟨y :: ys, line⟩, rfl, hx⟩
    next n queue _ =>
      rcases List.mem_cons.1 hx with rfl | hx
      · exact .inl (ask_retains line _ ys x (has_assign _ x n))
      · exact ih _ hx

/-- Where a statement is carried out: as that of a line, with jumps that go back, or as a direct one
    while a run is suspended. -/
def Poised (s : Engine γ) (statement : Statement) : Option Nat → Prop
  | none => s.mode = .paused
  | some k => statement.jumpsUpTo k ∧ s.Supplied k ∧
      (statement.assigns = false → ∀ n, s.listing.nextAfter? k = some n → s.Supplied n)

/-- What a statement leaves of a run that goes on. -/
structure Onward (line : Option Nat) (s t : Engine γ) : Prop where
  mode : t.mode = s.mode
  listing : t.listing = s.listing
  cursor : t.cursor = s.cursor
  pending : ∀ q, t.pending = some q → s.pending = some q ∨ q.line = line
  errors : t.errors = s.errors
  placed : t.Placed

/-- What one part of a statement leaves is where the next part begins. -/
theorem Onward.trans {line : Option Nat} {u : Engine γ} (h : Onward line s t)
    (h' : Onward line t u) :
    Onward line s u where
  mode := h'.mode.trans h.mode
  listing := h'.listing.trans h.listing
  cursor := h'.cursor.trans h.cursor
  pending q hq := by
    rcases h'.pending q hq with hq | hline
    · exact h.pending q hq
    · exact .inr hline
  errors := h'.errors.trans h.errors
  placed := h'.placed

/-- A change that moves no run and takes no value away. -/
theorem onward_of_retains {line : Option Nat} (hs : s.Placed) (machine : Machine γ)
    (queue : List Int16) (transcript : Transcript)
    (hretains : s.Retains { s with machine, queue, transcript }) :
    Onward line s { s with machine, queue, transcript } :=
  ⟨rfl, rfl, rfl, fun _ hq => .inl hq, rfl, hs.of_retains rfl hretains rfl rfl rfl⟩

/-- Looking at the variables leaves a run that goes on as it was. -/
theorem Looked.onward {line : Option Nat} (h : s.Looked t) (hs : s.Placed) : Onward line s t := by
  have hretains := h.retains
  obtain ⟨machine, -, rfl⟩ := h
  exact onward_of_retains hs machine s.queue s.transcript hretains

/-- Taking values and asking for more leaves a run that goes on. -/
theorem ask_onward (hs : s.Placed) (line : Option Nat) (xs : List Letter) :
    Onward line s (ask line s xs) := by
  have hretains := ask_retains line s xs
  rcases ask_cases line s xs with ⟨machine, queue, h⟩ | ⟨machine, queue, q, hq, h⟩
  · rw [h] at hretains ⊢
    exact onward_of_retains hs machine queue s.transcript hretains
  · rw [h] at hretains ⊢
    refine ⟨rfl, rfl, rfl, fun q' hq' => .inr ?_, rfl, hs.of_retains rfl hretains rfl rfl rfl⟩
    cases hq'
    exact hq

/-- A run that goes to a supplied line, with subroutines that return to such lines. -/
theorem onward_jump {line : Option Nat} {n : Nat} {calls : CallStack} (hs : s.Placed)
    (hn : s.Supplied n) (hcalls : ∀ f ∈ calls.frames, s.Supplied f) :
    Onward line s { s with calls, branch := some n } := by
  refine ⟨rfl, rfl, rfl, fun q hq => .inl hq, rfl, hs.cursor, hcalls, ?_⟩
  rintro m ⟨⟩
  exact hn

/-- A target that goes back is supplied. -/
theorem supplied_target {target : Expr} {k n : Nat} (hs : s.Supplied k)
    (hback : target.literal?.any fun (_, j) => j.toInt ≤ k)
    (hn : ∀ span j, target.literal? = some (span, j) → n = j.toNatClampNeg) : s.Supplied n := by
  obtain ⟨⟨span, j⟩, hliteral, hj⟩ := Option.any_eq_true _ _ |>.1 hback
  have hj : j.toInt ≤ k := by simpa using hj
  refine hs.back ?_
  rw [hn span j hliteral, Int16.toNatClampNeg]
  omega

/-- A statement leaves a run that is over, or one that is as well placed as before. -/
theorem Carried.onward {line : Option Nat} {statement : Statement} (h : Carried line s statement t)
    (hs : s.Placed) (hpoised : s.Poised statement line) :
    (t.isIdle ∧ t.errors = s.errors) ∨ Onward line s t := by
  induction h with
  | skipped hlook => exact .inr (hlook.onward hs)
  | @held s t u span lhs relation rhs body hlook hbody ih =>
    have hto : Onward line s t := hlook.onward hs
    -- The body is where the whole statement is, and jumps and gives where it does.
    have hbody : t.Poised body line := by
      cases line with
      | none => exact hto.mode.trans hpoised
      | some k =>
        obtain ⟨hjumps, hk, hnext⟩ := hpoised
        refine ⟨hjumps, hlook.supplied hk, fun hassigns n hn =>
          hlook.supplied (hnext hassigns n ?_)⟩
        rw [← hlook.listing, hn]
    exact (ih hto.placed hbody).imp (fun h => ⟨h.1, h.2.trans hto.errors⟩) hto.trans
  | @assigned s t span target e hlook n =>
    have hto : Onward line s t := hlook.onward hs
    have hassign := retains_assign t target.name n
    exact .inr (hto.trans (onward_of_retains hto.placed _ t.queue t.transcript hassign))
  | asked => exact .inr (ask_onward hs line _)
  | @wrote s t statement _ hlook transcript =>
    have hto : Onward line s t := hlook.onward hs
    exact .inr (hto.trans
      (onward_of_retains hto.placed t.machine t.queue transcript fun _ hx => hx))
  | ended _ hidle herrors => exact .inl ⟨hidle, herrors⟩
  | @jumped s t span target k n hline hlook hn =>
    have hto : Onward line s t := hlook.onward hs
    subst hline
    obtain ⟨hjumps, hk, -⟩ := hpoised
    have hn : t.Supplied n := hlook.supplied (supplied_target hk hjumps hn)
    exact .inr (hto.trans (onward_jump hto.placed hn hto.placed.frames))
  | @called s t span target k n back calls hline hlook hn hback hcalls =>
    have hto : Onward line s t := hlook.onward hs
    subst hline
    obtain ⟨hjumps, hk, hnext⟩ := hpoised
    have hn : t.Supplied n := hlook.supplied (supplied_target hk hjumps hn)
    refine .inr (hto.trans (onward_jump hto.placed hn fun f hf => hlook.supplied ?_))
    -- The subroutine returns to the line after this one, which gives nothing itself.
    rw [hcalls] at hf
    rcases List.mem_cons.1 hf with rfl | hf
    · exact hnext rfl f hback
    · exact hs.frames f hf
  | @returned s t span n calls _ hlook hcalls =>
    have hto : Onward line s t := hlook.onward hs
    have hframes : ∀ f ∈ n :: calls.frames, t.Supplied f := fun f hf =>
      hlook.supplied (hs.frames f (hcalls ▸ hf))
    exact .inr (hto.trans (onward_jump hto.placed (hframes n List.mem_cons_self)
      fun f hf => hframes f (List.mem_cons_of_mem n hf)))
  | @rewound s t span arguments k transcript hline hlook =>
    have hto : Onward line s t := hlook.onward hs
    rw [rewind_eq]
    exact .inr (hto.trans ⟨rfl, rfl, rfl, fun q hq => .inl hq, rfl, hto.placed.cursor, nofun,
      fun n hn => supplied_first? hn⟩)
  | launched queue n hline hmode =>
    subst hline
    exact absurd hpoised hmode

/-- Whatever a statement gives a value openly has one afterwards, or is being asked for. -/
theorem Carried.gives {line : Option Nat} {statement : Statement} (h : Carried line s statement t)
    (hline : line.isSome) (hopen : statement.givesOpenly) {x : Letter} (hx : statement.Gives x) :
    t.Has x ∨ ∃ q, t.pending = some q ∧ x ∈ q.awaiting := by
  have hnot : ∀ {s : Statement}, s.assigns = false → ¬ s.Gives x :=
    Statement.not_gives_of_not_assigns
  cases h with
  | skipped | held =>
    exact absurd hx (hnot (by simpa [Statement.givesOpenly, Statement.assigns] using hopen))
  | assigned hlook n =>
    obtain rfl := Statement.gives_assign.1 hx
    exact .inl (has_assign _ _ n)
  | asked => exact ask_gives line s (Statement.gives_input.1 hx)
  | wrote hassigns | ended hassigns => exact absurd hx (hnot hassigns)
  | jumped | called | returned | rewound => exact absurd hx (hnot rfl)
  | launched queue n hnone => simp [hnone] at hline

/-! ### Lines -/

/-- Without a run an engine is secure. -/
theorem secure_of_isIdle (h : s.isIdle) : s.Secure := fun hnot => absurd h hnot

/-- A run that does not wait for values is prepared if it is placed. -/
theorem Prepared.of_placed (hs : s.Placed) (hpending : s.pending = none) : s.Prepared :=
  ⟨hs, fun q hq => by simp [hpending] at hq⟩

/-- A failure ends a run or leaves it as it was. -/
theorem secure_fail (d : Diagnostic) (hs : s.mode = .paused → s.listing.InOrder ∧ s.Placed) :
    (s.fail d).Secure := by
  intro hnot
  by_cases hmode : s.mode = .paused
  · obtain ⟨hp, hplaced⟩ := hs hmode
    have hsame : s.fail d = s.noted d := by
      rw [fail_eq, stopRun, if_neg (by simp [noted, report, hmode])]
      unfold spoilLoad
      split
      next hloading =>
        -- A load that fails leaves no run.
        rw [fail_eq, stopRun, if_neg (by simp [noted, report, hmode]), spoilLoad,
          if_pos hloading] at hnot
        exact absurd rfl hnot
      next => rfl
    rw [hsame]
    exact ⟨hp, .of_placed (hplaced.of_retains rfl (fun _ hx => hx) rfl rfl rfl) rfl⟩
  · exact absurd (s.fail_isIdle d hmode) hnot

/-- What the work of a stored line leaves: a secure engine, and no new error for want of a value. -/
structure Sequel (s t : Engine γ) : Prop where
  secure : t.Secure
  errors : ∀ d, t.errors = s.errors ++ [d] → d.code ≠ .uninitialized

/-- Work that reports no error. -/
theorem sequel_of_errors (hsecure : t.Secure) (herrors : t.errors = s.errors) : Sequel s t := by
  refine ⟨hsecure, fun d hd => ?_⟩
  simp [herrors] at hd

/-- A failure for another reason. -/
theorem sequel_fail {d : Diagnostic} (hsecure : (t.fail d).Secure) (herrors : t.errors = s.errors)
    (hcode : d.code ≠ .uninitialized) : Sequel s (t.fail d) := by
  refine ⟨hsecure, fun d' hd' => ?_⟩
  rw [fail_errors, herrors] at hd'
  obtain ⟨-, hd'⟩ := List.append_inj' hd' rfl
  obtain rfl : t.placed d = d' := by simpa using hd'
  rwa [placed_code]

/-- A run whose line has given all that it gives goes on to a line for which all is supplied. -/
theorem sequel_finishLine (hp : t.listing.InOrder) (ht : t.Placed) (hmode : t.mode = .running)
    (hpending : t.pending = none) (herrors : t.errors = s.errors)
    (hgiven : ∀ l ∈ t.listing.lines, l.number = t.cursor → ∀ x, l.statement.Gives x → t.Has x) :
    Sequel s t.finishLine.2 := by
  have hnext : ∀ n, t.branch.or (t.listing.nextAfter? t.cursor) = some n → t.Supplied n := by
    intro n hn
    rcases Option.or_eq_some_iff.1 hn with hbranch | ⟨-, hafter⟩
    · exact ht.branch n hbranch
    · exact ht.cursor.next hafter hgiven
  generalize hr : t.finishLine = r
  cases hr ▸ finishLine_cases t with
  | moved n hn =>
    have hplaced : { t with branch := none, cursor := n }.Placed := ⟨hnext n hn, ht.frames, nofun⟩
    exact sequel_of_errors (fun _ => ⟨hp, .of_placed hplaced hpending⟩) herrors
  | stepped n hn =>
    have hplaced : { t with
        branch := none, cursor := n, stepping := false,
        breakpoints := t.breakpoints.arm n }.Placed :=
      ⟨hnext n hn, ht.frames, nofun⟩
    exact sequel_of_errors (fun _ => ⟨hp, .of_placed hplaced hpending⟩) herrors
  | fellOff =>
    have hsecure := secure_of_isIdle (t.fail_isIdle (t.atCursor .noEnd) (by simp [hmode]))
    exact sequel_fail hsecure herrors (by rw [atCursor_code]; exact Code.noConfusion)

variable [RandomSource γ]

/-- A line of a secure run is about to be carried out. -/
structure Ready (b : Engine γ) (line : Line) : Prop where
  placed : b.Placed
  poised : b.Poised line.statement (some line.number)
  reads : ∀ x, line.statement.Reads x → b.Has x

omit [RandomSource γ] in
/-- The line at the cursor of a run in order is ready to be carried out. -/
theorem ready_begun {line : Line} (hp : s.listing.InOrder) (hs : s.Placed)
    (hline : s.listing.get? s.cursor = some line) : (s.begun line).Ready line := by
  obtain ⟨hmem, hnumber⟩ := Listing.get?_eq_some_iff.1 hline
  rw [begun_eq]
  refine ⟨⟨hs.cursor, hs.frames, nofun⟩, ⟨hp.jumpsBack line hmem, ?_, fun hassigns n hn => ?_⟩,
    fun x hx => ?_⟩
  · rw [hnumber]
    exact hs.cursor
  · -- The line gives nothing, so the next one needs no more than it.
    refine hs.cursor.next (hnumber ▸ hn) fun l hl hnumber' x hx => ?_
    obtain rfl := Listing.eq_of_number hl hmem (hnumber'.trans hnumber.symm)
    exact absurd hx (Statement.not_gives_of_not_assigns hassigns)
  · obtain ⟨k, hk, hlt, hgives⟩ := hp.reads line hmem x hx
    exact hs.cursor k hk (hnumber ▸ hlt) x hgives

/-- **Lines.**  A line of a program in order does not fail for want of a value, and leaves the run
    prepared for what comes after it. -/
theorem sequel_executeLine {line : Line} (hp : s.listing.InOrder) (hs : s.Placed)
    (hmode : s.mode = .running) (hline : s.listing.get? s.cursor = some line) :
    Sequel s (s.executeLine line).2 := by
  obtain ⟨hmem, hnumber⟩ := Listing.get?_eq_some_iff.1 hline
  obtain ⟨hplaced, hpoised, hreads⟩ := ready_begun hp hs hline
  have hcomes := execute_comes line.statement (some line.number) (fun _ h => h) (s.begun line)
  have hbegun : (s.begun line).mode = s.mode ∧ (s.begun line).errors = s.errors ∧
      (s.begun line).listing = s.listing ∧ (s.begun line).cursor = s.cursor := by
    rw [begun_eq]
    exact ⟨rfl, rfl, rfl, rfl⟩
  obtain ⟨hbmode, hberrors, hblisting, hbcursor⟩ := hbegun
  -- A statement that has not ended the run has given what the line gives, or asks for it.
  have hgoes : ∀ t, Carried (some line.number) (s.begun line) line.statement t → t.mode = .running →
      Onward (some line.number) (s.begun line) t ∧ ∀ l ∈ t.listing.lines, l.number = t.cursor →
        ∀ x, l.statement.Gives x → t.Has x ∨ ∃ q, t.pending = some q ∧ x ∈ q.awaiting := by
    intro t hcarried hrunning
    rcases hcarried.onward hplaced hpoised with ⟨hidle, -⟩ | honward
    · simp [isIdle, hrunning] at hidle
    · refine ⟨honward, fun l hl hnumber' x hx => ?_⟩
      rw [honward.listing, hblisting] at hl
      rw [honward.cursor, hbcursor, ← hnumber] at hnumber'
      obtain rfl := Listing.eq_of_number hl hmem hnumber'
      exact hcarried.gives rfl (hp.givesOpenly l hl) hx
  generalize hr : s.executeLine line = r
  cases hr ▸ executeLine_cases s line with
  | failed fault t hexecute =>
    rw [hexecute] at hcomes
    obtain ⟨machine, ⟨-, hcode⟩, rfl⟩ := hcomes
    rw [timed_eq]
    have hrunning : (s.begun line).mode ≠ .paused := by simp [hbmode, hmode]
    refine sequel_fail (secure_of_isIdle (fail_isIdle _ _ hrunning)) hberrors fun hfault => ?_
    obtain ⟨x, hx, hnone⟩ := hcode hfault
    have hhas := hreads x hx
    simp [Has, hnone] at hhas
  | ended t hexecute hended =>
    rw [hexecute] at hcomes
    rw [timed_eq]
    rcases Carried.onward hcomes hplaced hpoised with ⟨hidle, herrors⟩ | honward
    · exact sequel_of_errors (secure_of_isIdle hidle) (herrors.trans hberrors)
    · exact absurd (honward.mode.trans (hbmode.trans hmode)) hended
  | asked t hexecute hrunning hasked =>
    rw [hexecute] at hcomes
    obtain ⟨honward, hgiven⟩ := hgoes t hcomes hrunning
    have hpt : t.listing.InOrder := by rwa [honward.listing, hblisting]
    rw [timed_eq]
    refine sequel_of_errors (fun _ => ⟨hpt, ?_⟩) (honward.errors.trans hberrors)
    refine ⟨honward.placed.of_retains rfl (fun _ hx => hx) rfl rfl rfl,
      fun q hq _ l hl hnumber' x hx => ?_⟩
    rcases hgiven l hl hnumber' x hx with hhas | ⟨q', hq', hawaiting⟩
    · exact .inl hhas
    · obtain rfl : q' = q := Option.some.inj (hq'.symm.trans hq)
      exact .inr hawaiting
  | finished t hexecute hrunning hnone =>
    rw [hexecute] at hcomes
    obtain ⟨honward, hgiven⟩ := hgoes t hcomes hrunning
    have hpt : t.listing.InOrder := by rwa [honward.listing, hblisting]
    rw [timed_eq]
    refine sequel_finishLine hpt (honward.placed.of_retains rfl (fun _ hx => hx) rfl rfl rfl)
      hrunning hnone
      (honward.errors.trans hberrors) fun l hl hnumber' x hx => ?_
    rcases hgiven l hl hnumber' x hx with hhas | ⟨q, hq, -⟩
    · exact hhas
    · simp [hnone] at hq

/-! ### Answers -/

/-- Evaluating an answer only looks at the variables. -/
theorem attempt_looked (s : Engine γ) (e : Expr) : s.Looked (s.attempt e).2 := by
  have h := e.eval_inspects (R := fun _ => True) (fun _ _ => trivial) s.machine
  unfold attempt evaluating
  cases hresult : e.eval s.machine with
  | ok n machine =>
    rw [hresult] at h
    exact ⟨machine, h, rfl⟩
  | error fault machine =>
    rw [hresult] at h
    exact ⟨machine, h.1, rfl⟩

/-- Reading and evaluating an answer only looks at the variables. -/
theorem answerValue_looked (s : Engine γ) (answer : String) :
    s.Looked (s.answerValue answer).2 := by
  unfold answerValue
  split
  · exact s.looked_refl
  · split
    · exact s.looked_refl
    · exact attempt_looked s _

/-- Answers give values to the variables that they are for, or one of them is bad. -/
theorem takeAnswers_gives (line : Option Nat) (s : Engine γ) (xs : List Letter)
    (answers : List (List Char)) :
    (∃ rest spare machine, takeAnswers line s xs answers =
      (some (rest, spare), { s with machine }) ∧
        s.Retains { s with machine } ∧ ∀ x ∈ xs, ({ s with machine } : Engine γ).Has x ∨ x ∈ rest) ∨
      ∃ machine d, takeAnswers line s xs answers = (none, ({ s with machine } : Engine γ).fail d) ∧
        s.Retains { s with machine } ∧ d.code = .invalidInput := by
  induction xs generalizing s answers with
  | nil => exact .inl ⟨[], answers, s.machine, rfl, fun _ hx => hx, nofun⟩
  | cons x xs ih =>
    cases answers with
    | nil => exact .inl ⟨x :: xs, [], s.machine, rfl, fun _ hx => hx, fun y hy => .inr hy⟩
    | cons answer answers =>
      have hlook := s.answerValue_looked (String.ofList (Text.trim answer))
      have hretains := hlook.retains
      obtain ⟨machine, -, hmachine⟩ := hlook
      rw [hmachine] at hretains
      cases hvalue : (s.answerValue (String.ofList (Text.trim answer))).1 with
      | none =>
        have hbad : s.answerValue (String.ofList (Text.trim answer)) = (none, { s with machine }) :=
          Prod.ext hvalue hmachine
        refine .inr ⟨machine,
          (Cause.invalidInput (String.ofList (Text.trim answer))).diagnostic.atLine line,
          ?_, hretains, rfl⟩
        rw [takeAnswers, hbad]
      | some n =>
        have hgood : s.answerValue (String.ofList (Text.trim answer)) =
            (some n, { s with machine }) :=
          Prod.ext hvalue hmachine
        let t : Engine γ := ({ s with machine } : Engine γ).assign x n
        have hstep : takeAnswers line s (x :: xs) (answer :: answers) =
            takeAnswers line t xs answers := by
          rw [takeAnswers, hgood]
        -- The value stays, whatever comes of the answers after it.
        have hassign : s.Retains t := hretains.trans (retains_assign { s with machine } x n)
        rw [hstep]
        rcases ih t answers with
          ⟨rest, spare, machine', htake, hrest, hgives⟩ | ⟨machine', d, htake, hrest, hcode⟩
        · refine .inl ⟨rest, spare, machine', htake, hassign.trans hrest, fun y hy => ?_⟩
          rcases List.mem_cons.1 hy with rfl | hy
          · exact .inl (hrest y (has_assign { s with machine } y n))
          · exact hgives y hy
        · exact .inr ⟨machine', d, htake, hassign.trans hrest, hcode⟩

/-- **Answers.**  What is answered is taken as given, and no answer is reported to want a value. -/
theorem sequel_answer (hs : s.Secure) {q : Inquiry} (hq : s.pending = some q) (text : String) :
    Sequel s (s.answer q text) := by
  rcases takeAnswers_gives q.line { s with pending := none } q.awaiting (answersIn text) with
    ⟨awaiting, spare, machine, htake, hretains, hgives⟩ | ⟨machine, d, htake, hretains, hcode⟩
  · rw [answersIn] at htake
    -- A warning about spare answers changes only what has been written.
    obtain ⟨transcript, hexcess⟩ : ∃ transcript,
        (if spare = [] then ({ s with machine, pending := none } : Engine γ)
          else ({ s with machine, pending := none } : Engine γ).emit
            (.notice Cause.excessInput.diagnostic)) =
            { s with machine, transcript, pending := none } := by
      split
      · exact ⟨s.transcript, rfl⟩
      · exact ⟨_, rfl⟩
    let t : Engine γ := { s with machine, transcript, pending := none }
    have hanswer : s.answer q text =
        if awaiting ≠ [] then { t with pending := some { q with awaiting } }
        else if q.line.isSome && t.mode = .running then t.finishLine.2 else t := by
      unfold answer
      dsimp only
      rw [htake]
      dsimp only
      rw [hexcess]
    have hplaced : ¬ s.isIdle → t.Placed := fun h =>
      (hs h).2.toPlaced.of_retains rfl hretains rfl rfl rfl
    have hgiven : ∀ h : ¬ s.isIdle, q.line.isSome → ∀ l ∈ s.listing.lines, l.number = s.cursor →
        ∀ x, l.statement.Gives x → t.Has x ∨ x ∈ awaiting := by
      intro h hline l hl hnumber x hx
      rcases (hs h).2.pending q hq hline l hl hnumber x hx with hhas | hawaiting
      · exact .inl (hretains x hhas)
      · exact hgives x hawaiting
    rw [hanswer]
    split
    next =>
      have hsame : ¬ s.isIdle →
          ({ t with pending := some { q with awaiting } } : Engine γ).Placed :=
        fun h => (hplaced h).of_retains rfl (fun _ hx => hx) rfl rfl rfl
      refine sequel_of_errors (fun h => ⟨(hs h).1, hsame h, ?_⟩) rfl
      rintro q' ⟨⟩ hline
      exact hgiven h hline
    next hnone =>
      split
      next hrun =>
        obtain ⟨hline, hmode⟩ : q.line.isSome ∧ s.mode = .running := by simpa using hrun
        have hnot : ¬ s.isIdle := by simp [isIdle, hmode]
        refine sequel_finishLine (hs hnot).1 (hplaced hnot) hmode rfl rfl
          fun l hl hnumber x hx => ?_
        rcases hgiven hnot hline l hl hnumber x hx with hhas | hawaiting
        · exact hhas
        · simp [show awaiting = [] by simpa using hnone] at hawaiting
      next => exact sequel_of_errors (fun h => ⟨(hs h).1, .of_placed (hplaced h) rfl⟩) rfl
  · rw [answersIn] at htake
    have hanswer : s.answer q text = ({ s with machine, pending := none } : Engine γ).fail d := by
      unfold answer
      dsimp only
      rw [htake]
    rw [hanswer]
    refine sequel_fail (secure_fail d fun hmode => ?_) rfl (by simp [hcode])
    have hnot : ¬ s.isIdle := by simpa [isIdle] using fun _ => hmode
    exact ⟨(hs hnot).1, (hs hnot).2.toPlaced.of_retains rfl hretains rfl rfl rfl⟩

end Engine

end LineBasic
