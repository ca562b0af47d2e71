import LineBasic.Proofs.Expr.Grammar
import LineBasic.Proofs.Token.Typed

namespace LineBasic

/-!
# Written expressions

Every expression that keeps to the levels of the grammar can be written down, and what is written
spells that expression and no other, up to its columns.

* `Expr.unplaced` -- an expression without its columns;
* `Expr.kinds` -- the kinds of the tokens that an expression is written with;
* `Expr.fits` -- the expressions of a level, which need no further parentheses;
* `wrappedValue_ofNat` -- each value is read from its digits, those of a negative one wrapped;
* `Expr.legible_append` -- no token of a written expression runs on into the next;
* `Expr.exists_spelled` -- written tokens spell the expression that they were written for.
-/

open Token

/-! ### Digits -/

/-- A number is written with digits only. -/
theorem Text.isDigit_of_mem_ofNat {n : Nat} : ∀ c ∈ (Text.ofNat n).toList, c.isDigit := by
  intro c hc
  rw [Text.ofNat, String.toList_ofList] at hc
  exact Nat.isDigit_of_mem_toDigits (by decide) (by decide) hc

/-- A number is written with at least one digit. -/
theorem Text.ofNat_ne_nil (n : Nat) : (Text.ofNat n).toList ≠ [] := by
  rw [Text.ofNat, String.toList_ofList]
  exact Nat.toDigits_ne_nil

/-- The digits of a number denote it. -/
theorem Text.value_ofNat (n : Nat) : Text.value (Text.ofNat n).toList = n := by
  rw [Text.ofNat, String.toList_ofList]
  exact Nat.ofDigitChars_toDigits (by decide) (by decide)

/-- A value is read from the digits of what it is modulo 65536. -/
theorem wrappedValue_ofNat (v : Int16) : wrappedValue (Text.ofNat (v.toInt % 65536).toNat) = v := by
  have hdigits : (Text.ofNat (v.toInt % 65536).toNat).toList.filter Char.isDigit =
      (Text.ofNat (v.toInt % 65536).toNat).toList :=
    List.filter_eq_self.2 fun c hc => Text.isDigit_of_mem_ofNat c hc
  rw [wrappedValue, hdigits, Text.value_ofNat, ← Int16.ofInt_eq_ofNat,
    Int.toNat_of_nonneg (by omega), ← Int16.toInt_inj, Int16.toInt_ofInt]
  exact (Int.emod_bmod _ _).trans v.toInt_bmod_size

/-! ### Written trees -/

/-- The sign of an operation on one value. -/
def UnaryOp.operator : UnaryOp → Operator
  | .negate => .minus
  | .absolute => .plus

/-- The operator of an operation on two values. -/
def BinaryOp.operator : BinaryOp → Operator
  | .multiply => .times
  | .divide => .divide
  | .add => .plus
  | .subtract => .minus

namespace Expr

/-- The expression without its columns. -/
def unplaced : Expr → Expr
  | int _ n => int .unplaced n
  | var _ x => var .unplaced x
  | rnd _ e => rnd .unplaced e.unplaced
  | usr _ e => usr .unplaced e.unplaced
  | usrAt _ e a => usrAt .unplaced e.unplaced a.unplaced
  | usrWith _ e a v => usrWith .unplaced e.unplaced a.unplaced v.unplaced
  | unary _ op e => unary .unplaced op e.unplaced
  | binary _ op l r => binary .unplaced op l.unplaced r.unplaced
  | group _ e => group .unplaced e.unplaced

/-- The kinds of the tokens that an expression is written with. A value is written as the digits of
    what it is modulo 65536. -/
def kinds : Expr → List Kind
  | int _ n => [.number (Text.ofNat (n.toInt % 65536).toNat)]
  | var _ x => [.letter x]
  | rnd _ e => .word .RND :: .leftParen :: (e.kinds ++ [.rightParen])
  | usr _ e => .word .USR :: .leftParen :: (e.kinds ++ [.rightParen])
  | usrAt _ e a => .word .USR :: .leftParen :: (e.kinds ++ .comma :: (a.kinds ++ [.rightParen]))
  | usrWith _ e a v =>
    .word .USR :: .leftParen ::
      (e.kinds ++ .comma :: (a.kinds ++ .comma :: (v.kinds ++ [.rightParen])))
  | unary _ op e => .operator op.operator :: e.kinds
  | binary _ op l r => l.kinds ++ .operator op.operator :: r.kinds
  | group _ e => .leftParen :: (e.kinds ++ [.rightParen])

/-- Whether an expression can stand at a level, and all expressions inside it at theirs. -/
def fits : Level → Expr → Bool
  | _, int .. | _, var .. => true
  | _, rnd _ e | _, usr _ e | _, group _ e => e.fits .sum
  | _, usrAt _ e a => e.fits .sum && a.fits .sum
  | _, usrWith _ e a v => e.fits .sum && a.fits .sum && v.fits .sum
  | level, unary _ _ e => level ≠ .value && e.fits .signed
  | level, binary _ .multiply l r | level, binary _ .divide l r =>
    (level = .sum || level = .product) && l.fits .product && r.fits .signed
  | level, binary _ .add l r | level, binary _ .subtract l r =>
    level = .sum && l.fits .sum && r.fits .product

/-! ### Written expressions can be read off -/

/-- Whether a token of a kind can stand behind a value. -/
def endsValue : Kind → Bool
  | .operator _ | .rightParen | .comma | .semicolon | .string _ | .word .THEN => true
  | _ => false

variable {k : Kind} {ks : List Kind} {e : Expr}

/-- What can stand behind a value carries no number on and begins no word with the letter before
    it. -/
theorem stopsAt_of_endsValue (hk : endsValue k) :
    ∀ c ∈ k.display.toList.head?,
      (∀ digits, (Kind.number digits).stopsAt c) ∧ ∀ x, (Kind.letter x).stopsAt c := by
  unfold endsValue at hk
  split at hk
  case h_1 op =>
    cases op with
    | relation r =>
      cases r <;> simp [Kind.display, Operator.name, Relation.name, Kind.stopsAt, secondLetters]
    | _ => simp [Kind.display, Operator.name, Kind.stopsAt, secondLetters]
  case h_7 => cases hk
  all_goals simp [Kind.display, Keyword.name, Kind.stopsAt, secondLetters]

/-- An expression is written with at least one token. -/
theorem kinds_ne_nil (e : Expr) : e.kinds ≠ [] := by
  cases e <;> simp [kinds]

/-- What a written expression begins with. -/
theorem head?_kinds (e : Expr) :
    ∀ k ∈ e.kinds.head?, (∃ n, k = .number (Text.ofNat n)) ∨ (∃ x, k = .letter x) ∨
      k ∈ [.leftParen, .word .RND, .word .USR, .operator .minus, .operator .plus] := by
  induction e with
  | int | var | rnd | usr | usrAt | usrWith | group => simp [kinds]
  | unary _ op => cases op <;> simp [kinds, UnaryOp.operator]
  | binary _ op l r ihl =>
    rw [kinds, List.head?_append_of_ne_nil _ (kinds_ne_nil l)]
    exact ihl

/-- A written expression begins with a token that can begin one. -/
theorem opensValue_of_head?_kinds (e : Expr) : ∀ k ∈ e.kinds.head?, opensValue k := by
  intro k hk
  rcases e.head?_kinds k hk with ⟨n, rfl⟩ | ⟨x, rfl⟩ | hmem
  · rfl
  · rfl
  · simp only [List.mem_cons, List.not_mem_nil, or_false] at hmem
    rcases hmem with rfl | rfl | rfl | rfl | rfl <;> rfl

/-- Numbers can be typed. -/
theorem isTypable_number (n : Nat) : (Kind.number (Text.ofNat n)).isTypable := by
  rw [Kind.isTypable, Bool.and_eq_true, decide_eq_true_eq, List.all_eq_true]
  exact ⟨Text.ofNat_ne_nil n, Text.isDigit_of_mem_ofNat⟩

/-- No expression begins with a character of a relation. -/
theorem relation_stopsAt (r : Relation) (e : Expr) :
    ∀ k ∈ e.kinds.head?, ∀ c ∈ k.display.toList.head?, (Kind.operator (.relation r)).stopsAt c := by
  have loose : ∀ c : Char, c.isAlphanum → (Kind.operator (.relation r)).stopsAt c := by
    intro c hc
    simp only [Kind.stopsAt, decide_eq_true_eq, List.mem_cons, List.not_mem_nil, or_false]
    rintro (rfl | rfl | rfl) <;> cases hc
  intro k hk
  rcases e.head?_kinds k hk with ⟨n, rfl⟩ | ⟨x, rfl⟩ | hmem
  · intro c hc
    exact loose c (by simp [Char.isAlphanum, Text.isDigit_of_mem_ofNat c (List.mem_of_head? hc)])
  · simpa [Kind.display, Letter.name] using loose x.char (by simp [Char.isAlphanum, isAlpha_char x])
  · simp only [List.mem_cons, List.not_mem_nil, or_false] at hmem
    rcases hmem with rfl | rfl | rfl | rfl | rfl <;>
      simp [Kind.display, Keyword.name, Operator.name, Kind.stopsAt]

/-- **Legibility.** An expression can be written before what can stand behind a value. -/
theorem legible_append (e : Expr) (hnext : ∀ k ∈ ks.head?, endsValue k) (hks : Legible ks) :
    Legible (e.kinds ++ ks) := by
  have close : ∀ {ks : List Kind}, Legible ks → Legible (.rightParen :: ks) :=
    .closed rfl fun _ => rfl
  have comma : ∀ {ks : List Kind}, Legible ks → Legible (.comma :: ks) := .closed rfl fun _ => rfl
  have opened : ∀ {ks : List Kind}, Legible ks → Legible (.leftParen :: ks) :=
    .closed rfl fun _ => rfl
  -- From the right: what stands behind an operand has to be legible before the operand is put in
  -- front of it.
  induction e generalizing ks with
  | int _ n =>
    exact .cons (isTypable_number _) (fun k hk c hc => (stopsAt_of_endsValue (hnext k hk) c hc).1 _)
      hks
  | var _ x => exact .cons rfl (fun k hk c hc => (stopsAt_of_endsValue (hnext k hk) c hc).2 _) hks
  | group _ e ih =>
    have hinner := ih (by simp [endsValue]) (close hks)
    simpa [kinds] using opened hinner
  | rnd _ e ih | usr _ e ih =>
    have hinner := ih (by simp [endsValue]) (close hks)
    simpa [kinds] using (opened hinner).closed rfl fun _ => rfl
  | usrAt _ e a ihe iha =>
    have haddress := iha (by simp [endsValue]) (close hks)
    have hroutine := ihe (by simp [endsValue]) (comma haddress)
    simpa [kinds] using (opened hroutine).closed rfl fun _ => rfl
  | usrWith _ e a v ihe iha ihv =>
    have hvalue := ihv (by simp [endsValue]) (close hks)
    have haddress := iha (by simp [endsValue]) (comma hvalue)
    have hroutine := ihe (by simp [endsValue]) (comma haddress)
    simpa [kinds] using (opened hroutine).closed rfl fun _ => rfl
  | unary _ op e ih =>
    have hinner := ih hnext hks
    cases op <;> exact hinner.closed rfl fun _ => rfl
  | binary _ op l r ihl ihr =>
    have hright : Legible (.operator op.operator :: (r.kinds ++ ks)) := by
      have hinner := ihr hnext hks
      cases op <;> exact hinner.closed rfl fun _ => rfl
    simpa [kinds] using ihl (by simp [endsValue]) hright

/-! ### Written expressions spell themselves -/

variable {level : Level} {ts : List Token}

/-- A value can stand at every level. -/
theorem Spelled.of_value (h : Spelled .value ts e) (level : Level) : Spelled level ts e := by
  cases level with
  | value => exact h
  | signed => exact .ofValue h
  | product => exact .ofSigned (.ofValue h)
  | sum => exact .ofProduct (.ofSigned (.ofValue h))

/-- A signed value can stand wherever not only values can. -/
theorem Spelled.of_signed (h : Spelled .signed ts e) (hlevel : level ≠ .value) :
    Spelled level ts e := by
  cases level with
  | value => exact absurd rfl hlevel
  | signed => exact h
  | product => exact .ofSigned h
  | sum => exact .ofProduct (.ofSigned h)

/-- A product can stand where a sum can. -/
theorem Spelled.of_product (h : Spelled .product ts e) (hlevel : level = .sum ∨ level = .product) :
    Spelled level ts e := by
  rcases hlevel with rfl | rfl
  · exact .ofProduct h
  · exact h

/-- **Written expressions.** Tokens of the kinds that an expression is written with spell that
    expression, whatever the columns are. -/
theorem exists_spelled (hfits : e.fits level) (hts : ts.map Token.kind = e.kinds) :
    ∃ e', Spelled level ts e' ∧ e'.unplaced = e.unplaced := by
  -- The level comes down with the tree: an operand that does not fit has no spelling without
  -- parentheses.
  induction e generalizing level ts with
  | int _ n =>
    obtain ⟨t, rfl, ht⟩ := List.map_eq_singleton_iff.1 hts
    exact ⟨_, Spelled.of_value (.number ht) level, by simp [unplaced, wrappedValue_ofNat]⟩
  | var _ x =>
    obtain ⟨t, rfl, ht⟩ := List.map_eq_singleton_iff.1 hts
    exact ⟨_, Spelled.of_value (.letter ht) level, rfl⟩
  | group _ e ih =>
    simp only [kinds, List.map_eq_cons_iff, List.map_eq_append_iff, List.map_eq_nil_iff] at hts
    obtain ⟨l, _, rfl, hl, us, _, rfl, hus, r, _, rfl, hr, rfl⟩ := hts
    obtain ⟨e', he', hsame⟩ := ih hfits hus
    exact ⟨_, Spelled.of_value (.group hl he' hr) level, by simp [unplaced, hsame]⟩
  | rnd _ e ih =>
    simp only [kinds, List.map_eq_cons_iff, List.map_eq_append_iff, List.map_eq_nil_iff] at hts
    obtain ⟨f, _, rfl, hf, l, _, rfl, hl, us, _, rfl, hus, r, _, rfl, hr, rfl⟩ := hts
    obtain ⟨e', he', hsame⟩ := ih hfits hus
    exact ⟨_, Spelled.of_value (.rnd hf hl he' hr) level, by simp [unplaced, hsame]⟩
  | usr _ e ih =>
    simp only [kinds, List.map_eq_cons_iff, List.map_eq_append_iff, List.map_eq_nil_iff] at hts
    obtain ⟨f, _, rfl, hf, l, _, rfl, hl, us, _, rfl, hus, r, _, rfl, hr, rfl⟩ := hts
    obtain ⟨e', he', hsame⟩ := ih hfits hus
    exact ⟨_, Spelled.of_value (.usr hf hl he' hr) level, by simp [unplaced, hsame]⟩
  | usrAt _ e a ihe iha =>
    simp only [kinds, List.map_eq_cons_iff, List.map_eq_append_iff, List.map_eq_nil_iff] at hts
    obtain ⟨f, _, rfl, hf, l, _, rfl, hl, us, _, rfl, hus, c, _, rfl, hc, vs, _, rfl, hvs,
      r, _, rfl, hr, rfl⟩ := hts
    simp only [fits, Bool.and_eq_true] at hfits
    obtain ⟨e', he', hroutine⟩ := ihe hfits.1 hus
    obtain ⟨a', ha', haddress⟩ := iha hfits.2 hvs
    exact ⟨_, Spelled.of_value (.usrAt hf hl he' hc ha' hr) level,
      by simp [unplaced, hroutine, haddress]⟩
  | usrWith _ e a v ihe iha ihv =>
    simp only [kinds, List.map_eq_cons_iff, List.map_eq_append_iff, List.map_eq_nil_iff] at hts
    obtain ⟨f, _, rfl, hf, l, _, rfl, hl, us, _, rfl, hus, c, _, rfl, hc, vs, _, rfl, hvs,
        d, _, rfl, hd,
      ws, _, rfl, hws, r, _, rfl, hr, rfl⟩ := hts
    simp only [fits, Bool.and_eq_true] at hfits
    obtain ⟨e', he', hroutine⟩ := ihe hfits.1.1 hus
    obtain ⟨a', ha', haddress⟩ := iha hfits.1.2 hvs
    obtain ⟨v', hv', hvalue⟩ := ihv hfits.2 hws
    exact ⟨_, Spelled.of_value (.usrWith hf hl he' hc ha' hd hv' hr) level, by
      simp [unplaced, hroutine, haddress, hvalue]⟩
  | unary _ op e ih =>
    simp only [kinds, List.map_eq_cons_iff] at hts
    obtain ⟨t, us, rfl, ht, hus⟩ := hts
    simp only [fits, Bool.and_eq_true, decide_eq_true_eq] at hfits
    obtain ⟨e', he', hsame⟩ := ih hfits.2 hus
    have hop : signOp? t.kind = some op := by cases op <;> rw [ht] <;> rfl
    exact ⟨_, (he'.sign hop).of_signed hfits.1, by simp [unplaced, hsame]⟩
  | binary _ op l r ihl ihr =>
    simp only [kinds, List.map_eq_append_iff, List.map_eq_cons_iff] at hts
    obtain ⟨ls, _, rfl, hls, t, rs, rfl, ht, hrs⟩ := hts
    cases op with
    | multiply | divide =>
      simp only [fits, Bool.and_eq_true, Bool.or_eq_true, decide_eq_true_eq] at hfits
      obtain ⟨⟨hlevel, hl⟩, hr⟩ := hfits
      obtain ⟨l', hl', hleft⟩ := ihl hl hls
      obtain ⟨r', hr', hright⟩ := ihr hr hrs
      first
        | exact ⟨_, (Spelled.multiply hl' ht hr').of_product hlevel,
          by simp [unplaced, hleft, hright]⟩
        | exact ⟨_, (Spelled.divide hl' ht hr').of_product hlevel,
          by simp [unplaced, hleft, hright]⟩
    | add | subtract =>
      simp only [fits, Bool.and_eq_true, decide_eq_true_eq] at hfits
      obtain ⟨⟨rfl, hl⟩, hr⟩ := hfits
      obtain ⟨l', hl', hleft⟩ := ihl hl hls
      obtain ⟨r', hr', hright⟩ := ihr hr hrs
      first
        | exact ⟨_, .add hl' ht hr', by simp [unplaced, hleft, hright]⟩
        | exact ⟨_, .subtract hl' ht hr', by simp [unplaced, hleft, hright]⟩

end Expr

end LineBasic
