import LineBasic.Proofs.Edits
import LineBasic.Proofs.Engine.Performed
import LineBasic.Random.ChaCha

namespace LineBasic

/-!
# Listing programs

What `LIST` writes, in terms of the edits of the program.

* `Engine.Bounds` -- the values of the bounds of a `LIST`;
* `Engine.Lists` -- what carrying it out comes to;
* `Engine.listedLines` -- the lines that are written, form by form;
* `Engine.lists_of_bounds` -- that this is so on any engine whose lines have numbers that lines can
  have;
* `Engine.edits_listed` -- the main result, for programs after any edits.
-/

namespace Engine

variable {γ : Type} [RandomSource γ] {s t : Engine γ}

/-- The values of the bounds of a `LIST`, which are evaluated one after the other, and the engine
    afterwards. -/
inductive Bounds : Engine γ → Extent → Option Int16 → Option Int16 → Engine γ → Prop
  | whole (s : Engine γ) : Bounds s .whole none none s
  | onward {s t : Engine γ} {low : Expr} {a : Int16} (ha : evaluating low.eval s = .ok a t) :
      Bounds s (.onward low) (some a) none t
  | between {s t u : Engine γ} {low high : Expr} {a b : Int16}
      (ha : evaluating low.eval s = .ok a t) (hb : evaluating high.eval t = .ok b u) :
      Bounds s (.between low high) (some a) (some b) u

/-- The lower bound of a `LIST`; one that is not given is the least number that a line can have. -/
def lowBound (a? : Option Int16) : Int16 := a?.getD 1

/-- The upper bound; one that is not given is the greatest number that a line can have. -/
def highBound (b? : Option Int16) : Int16 := b?.getD 32767

/-- Whether bounds are refused. -/
def Improper (low high : Int16) : Prop := high < low ∨ low < 1 ∨ high < 1

/-- Whether all lines have numbers that lines can have. -/
def Numbered (p : Listing) : Prop := ∀ l ∈ p.lines, 1 ≤ l.number ∧ l.number ≤ LineNumber.last

/-- Whether a line is listed.  It is what the edits left under its number; and all lines are asked
    for, or it has the number that is asked for, or no line has that number and it comes later, or
    it is between two numbers. -/
def IsListed (es : List Edit) (a? b? : Option Int16) (l : Line) : Prop :=
  lastWritten? es l.number = some l ∧
    match a?, b? with
    | none, _ => True
    | some a, none =>
      if (lastWritten? es a.toInt.toNat).isSome then (l.number : Int) = a.toInt
        else a.toInt ≤ l.number
    | some a, some b => a.toInt ≤ l.number ∧ (l.number : Int) ≤ b.toInt

/-- What carrying out a `LIST` comes to, given the values of its bounds and the engine after their
    evaluation. -/
structure Lists (es : List Edit) (line : Option Nat) (span : Span) (s : Engine γ) (extent : Extent)
    (a? b? : Option Int16) (t : Engine γ) : Prop where
  /-- Improper bounds are refused. -/
  refused : Improper (lowBound a?) (highBound b?) → execute line (.list span extent) s =
    .error ⟨if highBound b? < lowBound a? then .listOrder (lowBound a?) (highBound b?)
      else .listRange (lowBound a?) (highBound b?), span⟩ t
  /-- Otherwise the texts of the lines that are listed are written, in the order of their
      numbers. -/
  written : ¬ Improper (lowBound a?) (highBound b?) → ∃ lines : List Line,
    execute line (.list span extent) s =
      .ok () (t.emit (.output (String.join (lines.map fun l => l.source ++ "\n")))) ∧
    (lines.map Line.number).Pairwise (· < ·) ∧ ∀ l, l ∈ lines ↔ IsListed es a? b? l
  /-- Evaluating the bounds writes nothing. -/
  silent : t.transcript = s.transcript

/-! ### Bounds -/

variable {extent : Extent} {a? b? : Option Int16} {low high : Int16} {span : Span}
  {line : Option Nat}

/-- Evaluating the bounds changes nothing but the machine. -/
theorem Bounds.same (h : Bounds s extent a? b? t) :
    t.listing = s.listing ∧ t.transcript = s.transcript := by
  cases h with
  | whole => exact ⟨rfl, rfl⟩
  | onward ha =>
    obtain ⟨m, -, rfl⟩ := evaluating_eq_ok_iff.1 ha
    exact ⟨rfl, rfl⟩
  | between ha hb =>
    obtain ⟨m, -, rfl⟩ := evaluating_eq_ok_iff.1 ha
    obtain ⟨m', -, rfl⟩ := evaluating_eq_ok_iff.1 hb
    exact ⟨rfl, rfl⟩

omit [RandomSource γ] in
/-- Improper bounds are refused, for their order first. -/
theorem checkBounds_improper (h : Improper low high) : checkBounds span low high s =
    .error ⟨if high < low then .listOrder low high else .listRange low high, span⟩ s := by
  unfold checkBounds
  by_cases horder : high < low
  · simp only [if_pos horder]
    rfl
  · have hrange : low < 1 ∨ high < 1 := h.resolve_left horder
    have hrange : (decide (low < 1) || decide (high < 1)) = true := by simpa using hrange
    simp only [if_neg horder, hrange]
    rfl

omit [RandomSource γ] in
/-- Proper bounds are accepted. -/
theorem checkBounds_proper (h : ¬ Improper low high) : checkBounds span low high s = .ok () s := by
  have horder : ¬ high < low := fun h' => h (.inl h')
  have hrange : (decide (low < 1) || decide (high < 1)) = false := by
    simpa using not_or.1 (not_or.1 h).2
  unfold checkBounds
  simp only [if_neg horder, hrange]
  rfl

/-- Proper bounds are numbers that lines can have. -/
theorem not_improper_iff : ¬ Improper low high ↔ 1 ≤ low.toInt ∧ low.toInt ≤ high.toInt := by
  have hone : (1 : Int16).toInt = 1 := rfl
  unfold Improper
  simp only [Int16.lt_iff_toInt_lt, hone]
  omega

/-- Improper bounds are refused, whether or not they are both given. -/
theorem Bounds.refused (h : Bounds s extent a? b? t)
    (himproper : Improper (lowBound a?) (highBound b?)) :
    listed span extent s =
      .error ⟨if highBound b? < lowBound a? then .listOrder (lowBound a?) (highBound b?)
        else .listRange (lowBound a?) (highBound b?), span⟩ t := by
  cases h with
  | whole => exact absurd himproper (not_improper_iff.2 (by decide))
  | onward ha => exact (bind_of_ok ha).trans (bind_of_error (checkBounds_improper himproper))
  | between ha hb =>
    exact (bind_of_ok ha).trans
      ((bind_of_ok hb).trans (bind_of_error (checkBounds_improper himproper)))

/-- The lines that a `LIST` with proper bounds writes. -/
def listedLines (p : Listing) : Option Int16 → Option Int16 → List Line
  | none, _ => p.range 1 LineNumber.last
  | some a, none =>
    match p.get? a.toNatClampNeg with
    | some l => [l]
    | none => p.range a.toNatClampNeg LineNumber.last
  | some a, some b => p.range a.toNatClampNeg b.toNatClampNeg

/-- A `LIST` with proper bounds writes the lines that are listed. -/
theorem Bounds.listed (h : Bounds s extent a? b? t)
    (hproper : ¬ Improper (lowBound a?) (highBound b?)) :
    listed span extent s = .ok (written (listedLines s.listing a? b?)) t := by
  have hlisting := h.same.1
  cases h with
  | whole => rfl
  | @onward _ low a ha =>
    have hbounds : checkBounds span a (.ofNat LineNumber.last) t = .ok () t :=
      checkBounds_proper hproper
    refine (bind_of_ok ha).trans ((bind_of_ok hbounds).trans ?_)
    rw [get_bind, ← hlisting]
    unfold listedLines
    dsimp only
    cases t.listing.get? a.toNatClampNeg <;> rfl
  | between ha hb =>
    refine (bind_of_ok ha).trans
      ((bind_of_ok hb).trans ((bind_of_ok (checkBounds_proper hproper)).trans ?_))
    rw [get_bind, ← hlisting]
    rfl

/-- The lines that are listed are in ascending order. -/
theorem listedLines_ascending (p : Listing) (a? b? : Option Int16) :
    ((listedLines p a? b?).map Line.number).Pairwise (· < ·) := by
  unfold listedLines
  split
  · exact p.range_ascending _ _
  · split
    · exact List.pairwise_singleton _ _
    · exact p.range_ascending _ _
  · exact p.range_ascending _ _

variable {es : List Edit} {l : Line} {a b : Int16}

/-- Without bounds all lines are listed. -/
theorem mem_listedLines_whole (hnumbers : Numbered (.ofEdits es)) :
    l ∈ listedLines (.ofEdits es) none b? ↔ IsListed es none b? l := by
  refine Listing.mem_range_ofEdits.trans ⟨fun h => ⟨h.1, trivial⟩, fun h => ⟨h.1, ?_⟩⟩
  exact hnumbers l (Listing.mem_lines_ofEdits.2 h.1)

/-- From a number that has a line, that line is listed alone. -/
theorem mem_listedLines_onward (hnumbers : Numbered (.ofEdits es)) (ha : 1 ≤ a.toInt) :
    l ∈ listedLines (.ofEdits es) (some a) none ↔ IsListed es (some a) none l := by
  have hnat : (a.toInt.toNat : Int) = a.toInt := Int.toNat_of_nonneg (by omega)
  have hget : (Listing.ofEdits es).get? a.toNatClampNeg = lastWritten? es a.toInt.toNat :=
    Listing.get?_ofEdits es _
  unfold listedLines IsListed
  dsimp only
  rw [hget]
  cases hlast : lastWritten? es a.toInt.toNat with
  | none =>
    have hle : a.toInt.toNat ≤ l.number ↔ a.toInt ≤ l.number := by omega
    refine Listing.mem_range_ofEdits.trans (and_congr_right fun hl => ?_)
    have hlast : l.number ≤ LineNumber.last := (hnumbers l (Listing.mem_lines_ofEdits.2 hl)).2
    exact (and_iff_left hlast).trans hle
  | some k =>
    have hk : k.number = a.toInt.toNat := (Listing.get?_eq_some_iff.1 (hget.trans hlast)).2
    refine List.mem_singleton.trans ⟨?_, ?_⟩
    · rintro rfl
      exact ⟨hk ▸ hlast, hk ▸ hnat⟩
    · rintro ⟨hl, heq⟩
      have hnumber : l.number = a.toInt.toNat := Int.ofNat_inj.1 (Eq.trans heq hnat.symm)
      rw [hnumber, hlast] at hl
      exact (Option.some.inj hl).symm

/-- Between two bounds the lines with a number between them are listed. -/
theorem mem_listedLines_between (ha : 1 ≤ a.toInt) (hab : a.toInt ≤ b.toInt) :
    l ∈ listedLines (.ofEdits es) (some a) (some b) ↔ IsListed es (some a) (some b) l := by
  have hbounds : a.toInt.toNat ≤ l.number ∧ l.number ≤ b.toInt.toNat ↔
      a.toInt ≤ l.number ∧ (l.number : Int) ≤ b.toInt := by
    omega
  exact Listing.mem_range_ofEdits.trans (and_congr_right fun _ => hbounds)

/-- The lines that are written are those that are listed. -/
theorem mem_listedLines (hnumbers : Numbered (.ofEdits es))
    (hproper : ¬ Improper (lowBound a?) (highBound b?)) :
    l ∈ listedLines (.ofEdits es) a? b? ↔ IsListed es a? b? l := by
  obtain ⟨hlow, hle⟩ := not_improper_iff.1 hproper
  cases a? with
  | none => exact mem_listedLines_whole hnumbers
  | some a =>
    cases b? with
    | none => exact mem_listedLines_onward hnumbers hlow
    | some b => exact mem_listedLines_between hlow hle

/-! ### Statements -/

/-- Carrying out a `LIST` writes what its bounds say. -/
theorem lists_of_bounds (hlisting : s.listing = .ofEdits es) (hnumbers : Numbered (.ofEdits es))
    (h : Bounds s extent a? b? t) : Lists es line span s extent a? b? t where
  refused himproper := bind_of_error (h.refused himproper)
  written hproper := by
    have hlisted : listed span extent s = .ok (Engine.written (listedLines s.listing a? b?)) t :=
      h.listed hproper
    rw [hlisting] at hlisted
    exact ⟨_, bind_of_ok hlisted, listedLines_ascending _ _ _, fun l =>
      mem_listedLines hnumbers hproper⟩
  silent := h.same.2

/-- **Main result.**  A program answers whatever is asked of it by the last edits of the numbers,
    and insertions under two numbers may change places.  On an engine with such a program `LIST`
    writes the lines between its bounds, which the last edits left there, and refuses other
    bounds. -/
theorem edits_listed (es : List Edit) :
    (Listing.ofEdits es).Records es ∧
      (∀ (p : Listing) (k l : Line), k.number ≠ l.number →
        (p.insert k).insert l = (p.insert l).insert k) ∧
      ((∀ l, .insert l ∈ es → 1 ≤ l.number ∧ l.number ≤ LineNumber.last) →
        ∀ (s t : Engine γ) (extent : Extent) (a? b? : Option Int16), s.listing = .ofEdits es →
          Bounds s extent a? b? t → ∀ line span, Lists es line span s extent a? b? t) := by
  refine ⟨Listing.records_ofEdits es, fun p k l h => p.insert_comm h, ?_⟩
  intro hinserted s t extent a? b? hlisting hbounds line span
  refine lists_of_bounds hlisting (fun l hl => hinserted l ?_) hbounds
  exact insert_mem_of_lastWritten? (Listing.mem_lines_ofEdits.1 hl)

/-- Edits of which some undo others, under the least and the greatest number among others. -/
def undone : List Edit :=
  let ends (n : Nat) (text : String) : Edit := .insert ⟨n, text, .halt ⟨3, 6⟩⟩
  [ends 5 "5 END", .clear, ends 32767 "32767 END", ends 20 "20 END", ends 1 "1 END",
    ends 10 "10 END", .remove 10, .remove 30, ends 20 "20  END"]

/-- What is left is listed: all of it, from a number that has a line or has none, and between two
    numbers. -/
theorem edits_listed_undone :
    let s : Engine ChaCha := { start (ChaCha.ofSeed 1) with listing := .ofEdits undone }
    let number (n : Int16) : Expr := .int ⟨5, 7⟩ n
    let writes (extent : Extent) (text : String) : Prop :=
      execute none (.list ⟨0, 4⟩ extent) s = .ok () (s.emit (.output text))
    (∀ l, .insert l ∈ undone → 1 ≤ l.number ∧ l.number ≤ LineNumber.last) ∧
      (Listing.ofEdits undone).nextAfter? 1 = some 20 ∧
      Lists undone none ⟨0, 4⟩ s .whole none none s ∧
      Lists undone none ⟨0, 4⟩ s (.onward (number 20)) (some 20) none s ∧
      Lists undone none ⟨0, 4⟩ s (.onward (number 10)) (some 10) none s ∧
      Lists undone none ⟨0, 4⟩ s (.between (number 1) (number 20)) (some 1) (some 20) s ∧
      writes .whole "1 END\n20  END\n32767 END\n" ∧ writes (.onward (number 20)) "20  END\n" ∧
      writes (.onward (number 10)) "20  END\n32767 END\n" ∧
      writes (.between (number 1) (number 20)) "1 END\n20  END\n" ∧
      execute none (.list ⟨0, 4⟩ (.between (number 20) (number 1))) s =
        .error ⟨.listOrder 20 1, ⟨0, 4⟩⟩ s := by
  intro s number writes
  have hinserted : ∀ l, .insert l ∈ undone → 1 ≤ l.number ∧ l.number ≤ LineNumber.last := by
    intro l hl
    simp only [undone, List.mem_cons, Edit.insert.injEq, reduceCtorEq, List.not_mem_nil, or_false,
      false_or] at hl
    rcases hl with rfl | rfl | rfl | rfl | rfl | rfl <;> decide
  have hlists := (edits_listed (γ := ChaCha) undone).2.2 hinserted s s
  have hnext : (Listing.ofEdits undone).nextAfter? 1 = some 20 := by decide +kernel
  have hinverted : Lists undone none ⟨0, 4⟩ s (.between (number 20) (number 1)) (some 20)
      (some 1) s :=
    hlists _ _ _ rfl (.between rfl rfl) _ _
  exact ⟨hinserted, hnext, hlists _ _ _ rfl (.whole s) _ _, hlists _ _ _ rfl (.onward rfl) _ _,
    hlists _ _ _ rfl (.onward rfl) _ _, hlists _ _ _ rfl (.between rfl rfl) _ _, rfl, rfl, rfl, rfl,
    hinverted.refused (.inl (by decide))⟩

end Engine

end LineBasic
