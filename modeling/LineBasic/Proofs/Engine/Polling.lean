import LineBasic.Proofs.Engine.Await
import LineBasic.Random.ChaCha

namespace LineBasic

/-!
# Polling

Whoever drives an engine does something with it, polls it until there is an event, and so on.  How
the work is divided among the polls makes no difference.

* `Engine.await_of_le` -- budgets that pay for as much bring the same event;
* `Engine.Delivers` -- what an endless sequence of budgets comes to;
* `Round`, `Engine.Drives` -- what is done with an engine and with which budgets it is polled, and
  what is seen;
* `Engine.Drives.unique`, `Engine.Drives.repolled` -- other budgets show the same;
* `Engine.polling_granularity` -- the main result.
-/

variable {γ : Type} [RandomSource γ]

/-- Things that are done with an engine, and the budgets with which it is polled afterwards. -/
structure Round (γ : Type) where
  /-- What is done. -/
  acts : List (Act γ)
  /-- The budgets, one after the other. -/
  budgets : Nat → Nat

/-- Whether each poll lets the engine work. -/
def Round.IsPositive (r : Round γ) : Prop := ∀ i, 0 < r.budgets i

namespace Engine

variable {s t : Engine γ} {a b : Awaited γ}

/-! ### Budgets -/

/-- Budgets come to their sums, one part after the other. -/
theorem total_append (bs cs : List Nat) : total (bs ++ cs) = total bs + total cs := by
  induction bs with
  | nil => simp [total]
  | cons budget bs ih => simp [total, ih, Nat.add_assoc]

/-- What the first of endless budgets come to together is at least their number. -/
theorem le_total_range {budgets : Nat → Nat} (h : ∀ i, 0 < budgets i) (k : Nat) :
    k ≤ total ((List.range k).map budgets) := by
  induction k with
  | zero => exact Nat.zero_le _
  | succ k ih =>
    have hbudget := h k
    rw [List.range_succ, List.map_append, total_append]
    simp only [List.map_cons, List.map_nil, total]
    omega

/-- **Budgets that pay for as much.**  If some budgets bring an event, so do others that come to as
    much together. -/
theorem await_of_le {bs cs : List Nat} (h : total bs ≤ total cs)
    (hevent : (s.await bs).event ≠ .running) :
    s.await cs = s.await bs := by
  obtain ⟨d, hd⟩ := Nat.exists_eq_add_of_le h
  rw [await_eq_poll] at hevent ⊢
  rw [await_eq_poll, hd, poll_add, ticks_add, if_neg hevent, if_neg hevent, List.append_nil]

/-! ### Endless budgets -/

/-- Whether polling with one budget after the other brings an event. -/
def Delivers (s : Engine γ) (budgets : Nat → Nat) (a : Awaited γ) : Prop :=
  a.event ≠ .running ∧ ∃ k, s.await ((List.range k).map budgets) = a

/-- There is one first event, whatever the budgets are. -/
theorem Delivers.unique {budgets budgets' : Nat → Nat} (h : s.Delivers budgets a)
    (h' : s.Delivers budgets' b) :
    a = b := by
  obtain ⟨ha, k, rfl⟩ := h
  obtain ⟨hb, k', rfl⟩ := h'
  rcases Nat.le_total (total ((List.range k).map budgets))
    (total ((List.range k').map budgets')) with hle | hle
  · exact (await_of_le hle ha).symm
  · exact await_of_le hle hb

/-- An event that some budgets bring is brought by any others. -/
theorem Delivers.repolled {budgets budgets' : Nat → Nat} (h : s.Delivers budgets a)
    (hpositive : ∀ i, 0 < budgets' i) :
    s.Delivers budgets' a := by
  obtain ⟨ha, k, rfl⟩ := h
  exact ⟨ha, _, await_of_le (le_total_range hpositive (total ((List.range k).map budgets))) ha⟩

/-! ### Rounds -/

/-- The answers to some acts, and the engine after them. -/
def respondAll (s : Engine γ) : List (Act γ) → List Reply × Engine γ
  | [] => ([], s)
  | a :: acts =>
    ((s.respond a).1 :: ((s.respond a).2.respondAll acts).1, ((s.respond a).2.respondAll acts).2)

/-- What is seen in some rounds, in each of which an event comes, and the engine after them. -/
inductive Drives : Engine γ → List (Round γ) → List (List Reply × Awaited γ) → Engine γ → Prop
  | done (s : Engine γ) : Drives s [] [] s
  | round {s t : Engine γ} {r : Round γ} {rs : List (Round γ)} {a : Awaited γ}
      {seen : List (List Reply × Awaited γ)} (hevent : (s.respondAll r.acts).2.Delivers r.budgets a)
      (hrest : Drives a.engine rs seen t) :
      Drives s (r :: rs) (((s.respondAll r.acts).1, a) :: seen) t

variable {rs rs' : List (Round γ)} {seen seen' : List (List Reply × Awaited γ)} {u : Engine γ}

/-- What is done settles what is seen. -/
theorem Drives.unique (h : Drives s rs seen t) (h' : Drives s rs' seen' u)
    (hacts : rs.map Round.acts = rs'.map Round.acts) : seen = seen' ∧ t = u := by
  induction h generalizing rs' seen' with
  | done =>
    obtain rfl := List.map_eq_nil_iff.1 hacts.symm
    cases h'
    exact ⟨rfl, rfl⟩
  | round hevent _ ih =>
    cases h' with
    | done => cases hacts
    | round hevent' hrest' =>
      obtain ⟨hsame, hacts⟩ := List.cons.inj hacts
      rw [hsame] at hevent
      obtain rfl := hevent.unique hevent'
      obtain ⟨rfl, rfl⟩ := ih hrest' hacts
      exact ⟨by rw [hsame], rfl⟩

/-- Other budgets show the same. -/
theorem Drives.repolled (h : Drives s rs seen t) (hacts : rs.map Round.acts = rs'.map Round.acts)
    (hpositive : ∀ r ∈ rs', r.IsPositive) : Drives s rs' seen t := by
  induction h generalizing rs' with
  | done =>
    obtain rfl := List.map_eq_nil_iff.1 hacts.symm
    exact .done _
  | @round s t r rs a seen hevent _ ih =>
    cases rs' with
    | nil => cases hacts
    | cons r' rs' =>
      obtain ⟨hsame, hacts⟩ := List.cons.inj hacts
      obtain ⟨hpositive, hrest⟩ := List.forall_mem_cons.1 hpositive
      rw [hsame] at hevent ⊢
      exact .round (hevent.repolled hpositive) (ih hacts hrest)

/-- On the program's turn a budget of one pays for `advance`. -/
theorem poll_one (herrors : s.errors = []) (hpending : s.pending = none) (hdirect : s.direct = none)
    (hmode : s.mode = .running) : poll 1 s = (.running, s.advance.2) := by
  simp [poll, tick, herrors, hpending, hdirect, hmode]

/-- **Main result.**  A budget may be split anywhere.  Two drivers that do the same, and poll with
    any positive budgets until there is an event, see the same in every round and leave the same
    engine.  On the program's turn a budget of one comes to `advance`. -/
theorem polling_granularity :
    (∀ (x y : Nat) (s : Engine γ),
        poll (x + y) s = if (poll x s).1 = .running then poll y (poll x s).2 else poll x s) ∧
      (∀ (s t : Engine γ) (rs rs' : List (Round γ)) (seen : List (List Reply × Awaited γ)),
        rs.map Round.acts = rs'.map Round.acts → (∀ r ∈ rs, r.IsPositive) →
        (∀ r ∈ rs', r.IsPositive) → (Drives s rs seen t ↔ Drives s rs' seen t) ∧
          ∀ seen' u, Drives s rs seen t → Drives s rs' seen' u → seen' = seen ∧ u = t) ∧
      ∀ s : Engine γ, s.errors = [] → s.pending = none → s.direct = none → s.mode = .running →
        poll 1 s = (.running, s.advance.2) := by
  refine ⟨fun x y s => poll_add x y s, fun s t rs rs' seen hacts hpositive hpositive' =>
    ⟨⟨fun h => ?_, fun h => ?_⟩, fun seen' u h h' => ?_⟩, fun s => poll_one⟩
  · exact h.repolled hacts hpositive'
  · exact h.repolled hacts.symm hpositive
  · obtain ⟨rfl, rfl⟩ := h.unique h' hacts
    exact ⟨rfl, rfl⟩

/-- A program that squares what is typed is entered and started, and gets its answer, with the same
    budget for all polls. -/
def squared (budget : Nat) : List (Round ChaCha) :=
  [⟨[.enter "10 INPUT A", .enter "20 PRINT A*A", .enter "30 END", .enter "RUN"], fun _ => budget⟩,
    ⟨[.enter "-7"], fun _ => budget⟩]

/-- Polled with budgets of nine or of one, the program asks once, and ends. -/
theorem polling_granularity_squared :
    let s := start (ChaCha.ofSeed 1)
    let running := s.run [.act (.enter "10 GOTO 10"), .act (.enter "RUN"), .poll 1]
    (∃ seen t, Drives s (squared 9) seen t ∧ Drives s (squared 1) seen t ∧
        seen.map (·.2.event) = [.input "[A]? ", .stopped] ∧
        t.transcript.emissions = [.output "49\n"]) ∧
      poll 1 running = (.running, running.advance.2) := by
  intro s running
  have hpositive : ∀ budget, 0 < budget → ∀ r ∈ squared budget, r.IsPositive := by
    intro budget hbudget r hr
    simp only [squared, List.mem_cons, List.not_mem_nil, or_false] at hr
    rcases hr with rfl | rfl <;> exact fun _ => hbudget
  have hnine : ∃ seen t, Drives s (squared 9) seen t ∧
      seen.map (·.2.event) = [.input "[A]? ", .stopped] ∧
      t.transcript.emissions = [.output "49\n"] :=
    ⟨_, _, .round ⟨by decide +kernel, 1, rfl⟩ (.round ⟨by decide +kernel, 1, rfl⟩ (.done _)),
      by decide +kernel, by decide +kernel⟩
  obtain ⟨seen, t, hdrives, hevents, houtput⟩ := hnine
  have hgranularity := polling_granularity (γ := ChaCha)
  have hsame := (hgranularity.2.1 s t (squared 9) (squared 1) seen rfl (hpositive 9 (by decide))
    (hpositive 1 (by decide))).1.1 hdrives
  exact ⟨⟨seen, t, hdrives, hsame, hevents, houtput⟩,
    hgranularity.2.2 running (by decide +kernel) (by decide +kernel) (by decide +kernel)
      (by decide +kernel)⟩

end Engine

end LineBasic
